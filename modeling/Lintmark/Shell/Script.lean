/-
Shell scripts: words, redirections and commands, and reading them from text.
-/
import Lintmark.Shell.Bytes

namespace Lintmark.Shell

/-- A piece of a word. -/
inductive Piece where
  | plain (cs : Bytes)
  | quoted (cs : Bytes)
  | parameter (name : Bytes) (inQuotes : Bool)
  | output (script : Bytes) (inQuotes : Bool)
deriving Repr, DecidableEq

/-- A word: pieces without a blank between them. -/
abbrev Word := List Piece

/-- Where an input or output goes instead. -/
inductive Redirection where
  | write (fd : Nat) (target : Word)
  | read (source : Word)
  | copy (fd : Nat) (source : Word)
deriving Repr, DecidableEq

/-- A simple command: assignments, words and redirections, on a line. -/
structure Simple where
  assignments : List (Bytes × Word) := []
  words : List Word := []
  redirections : List Redirection := []
  line : Nat
deriving Repr, DecidableEq

inductive Cmd where
  | skip
  | simple (s : Simple)
  /-- Succeeds if a word fits one of some patterns. -/
  | fits (w : Word) (patterns : List Word)
  | pipe (left right : Cmd)
  | negate (c : Cmd)
  | both (left right : Cmd)
  | either (left right : Cmd)
  | seq (first second : Cmd)
  | background (c : Cmd)
  | choose (test yes no : Cmd)
  | repeat (test body : Cmd) (expected : Bool)
  | forEach (name : Bytes) (words : List Word) (body : Cmd)
  | group (c : Cmd) (rs : List Redirection)
  | subshell (c : Cmd) (rs : List Redirection)
deriving Repr, DecidableEq

inductive Token where
  | word (w : Word)
  | operator (s : Bytes)
  | redirect (fd : Nat) (s : Bytes)
  | newLine
deriving Repr, DecidableEq

def isNameChar (c : Char) : Bool :=
  c.isAlphanum || c == '_'

/-- Characters that end a word. -/
def endsWord (c : Char) : Bool :=
  [' ', '\t', '\n', ';', '&', '|', '(', ')', '<', '>'].contains c

/-- Parameters with names of one special character. -/
def isSpecial (c : Char) : Bool :=
  ['*', '@', '#', '?', '$', '!', '-'].contains c

/-- Characters that a backslash protects between double quotes. -/
def isProtected (c : Char) : Bool :=
  ['$', '"', '\\', '\x60'].contains c

/-- Split at the parenthesis that closes the one before the text. -/
def closing : Nat → Bytes → Bytes → Option (Bytes × Bytes)
  | _, _, [] => none
  | depth, done, '\\' :: c :: cs => closing depth (c :: '\\' :: done) cs
  | depth, done, '(' :: cs => closing (depth + 1) ('(' :: done) cs
  | 0, done, ')' :: cs => some (done.reverse, cs)
  | depth + 1, done, ')' :: cs => closing depth (')' :: done) cs
  | depth, done, c :: cs => closing depth (c :: done) cs

/-- Read what follows a dollar sign. -/
def dollar (inQuotes : Bool) (cs : Bytes) : Option (Piece × Bytes) :=
  match cs with
  | '(' :: cs => (closing 0 [] cs).map fun (script, rest) => (.output script inQuotes, rest)
  | '{' :: cs =>
    let name := cs.takeWhile (· != '}')
    match cs.drop name.length with
    | '}' :: rest => some (.parameter name inQuotes, rest)
    | _ => none
  | c :: rest =>
    if isSpecial c || c.isDigit then some (.parameter [c] inQuotes, rest)
    else if isNameChar c then
      some (.parameter (cs.takeWhile isNameChar) inQuotes, cs.dropWhile isNameChar)
    else some (.quoted ['$'], cs)
  | [] => some (.quoted ['$'], [])

/-- Read up to the double quote that ends the text. -/
def doubleQuoted : Nat → Bytes → Option (Word × Bytes)
  | 0, _ => none
  | fuel + 1, cs =>
    match cs with
    | [] => none
    | '"' :: rest => some ([], rest)
    | '\\' :: '\n' :: rest => doubleQuoted fuel rest
    | '\\' :: c :: rest =>
      (doubleQuoted fuel rest).map fun (ps, rest) =>
        (.quoted (if isProtected c then [c] else ['\\', c]) :: ps, rest)
    | '$' :: rest =>
      (dollar true rest).bind fun (p, rest) =>
        (doubleQuoted fuel rest).map fun (ps, rest) => (p :: ps, rest)
    | '\x60' :: rest =>
      match rest.dropWhile (· != '\x60') with
      | _ :: behind =>
        (doubleQuoted fuel behind).map fun (ps, rest') =>
          (.output (rest.takeWhile (· != '\x60')) true :: ps, rest')
      | [] => none
    | c :: rest => (doubleQuoted fuel rest).map fun (ps, rest) => (.quoted [c] :: ps, rest)

def word : Nat → Bytes → Option (Word × Bytes)
  | 0, _ => none
  | fuel + 1, cs =>
    match cs with
    | [] => some ([], [])
    | '\'' :: rest =>
      match rest.dropWhile (· != '\'') with
      | _ :: behind =>
        (word fuel behind).map fun (ps, rest') =>
          (.quoted (rest.takeWhile (· != '\'')) :: ps, rest')
      | [] => none
    | '"' :: rest =>
      (doubleQuoted (rest.length + 1) rest).bind fun (qs, rest) =>
        (word fuel rest).map fun (ps, rest) => (.quoted [] :: qs ++ ps, rest)
    | '\\' :: '\n' :: rest => word fuel rest
    | '\\' :: c :: rest => (word fuel rest).map fun (ps, rest) => (.quoted [c] :: ps, rest)
    | '$' :: rest =>
      (dollar false rest).bind fun (p, rest) =>
        (word fuel rest).map fun (ps, rest) => (p :: ps, rest)
    | '\x60' :: rest =>
      match rest.dropWhile (· != '\x60') with
      | _ :: behind =>
        (word fuel behind).map fun (ps, rest') =>
          (.output (rest.takeWhile (· != '\x60')) false :: ps, rest')
      | [] => none
    | c :: rest =>
      if endsWord c then some ([], cs)
      else
        (word fuel rest).map fun (ps, rest) =>
          match ps with
          | .plain qs :: ps => (.plain (c :: qs) :: ps, rest)
          | ps => (.plain [c] :: ps, rest)

/-- Operators, longer ones first. -/
def operators : List Bytes :=
  [['&', '&'], ['|', '|'], [';', ';'], ['&'], ['|'], [';'], ['('], [')']]

/-- Redirection signs, longer ones first. -/
def redirectSigns : List Bytes :=
  [['>', '>'], ['>', '&'], ['>', '|'], ['>'], ['<', '&'], ['<']]

/-- Cut a script into tokens, each with its line. -/
def tokens : Nat → Nat → Bytes → Option (List (Token × Nat))
  | 0, _, _ => none
  | fuel + 1, line, cs =>
    let next (t : Token) (line' : Nat) (rest : Bytes) : Option (List (Token × Nat)) :=
      (tokens fuel line' rest).map ((t, line) :: ·)
    match cs with
    | [] => some []
    | ' ' :: rest => tokens fuel line rest
    | '\t' :: rest => tokens fuel line rest
    | '\\' :: '\n' :: rest => tokens fuel (line + 1) rest
    | '#' :: rest => tokens fuel line (rest.dropWhile (· != '\n'))
    | '\n' :: rest => next .newLine (line + 1) rest
    | cs =>
      match operators.find? (·.isPrefixOf cs) with
      | some o => next (.operator o) line (cs.drop o.length)
      | none =>
        let digits := cs.takeWhile Char.isDigit
        let behind := cs.drop digits.length
        match redirectSigns.find? (·.isPrefixOf behind) with
        | some r =>
          let fd := (natural? digits).getD (if r.head? = some '<' then 0 else 1)
          next (.redirect fd r) line (behind.drop r.length)
        | none =>
          (word (cs.length + 1) cs).bind fun (w, rest) =>
            next (.word w) (line + (cs.take (cs.length - rest.length)).count '\n') rest

/-- The letters of a word without quotes and parameters. -/
def keyword? : Token → Option Bytes
  | .word [.plain cs] => some cs
  | _ => none

/-- An assignment, if a word is one. -/
def assignment? : Word → Option (Bytes × Word)
  | .plain cs :: ps =>
    let name := cs.takeWhile isNameChar
    match cs.drop name.length, name with
    | '=' :: rest, c :: _ =>
      if c.isDigit then none
      else some (name, if rest = [] then ps else .plain rest :: ps)
    | _, _ => none
  | _ => none

/-- Words that end a list of commands. -/
def endsList (t : Token) : Bool :=
  match t with
  | .operator o => o == [')'] || o == [';', ';']
  | t =>
    match keyword? t with
    | some k =>
      ["then", "else", "elif", "fi", "do", "done", "esac", "\x7d"].contains (String.ofList k)
    | none => false

abbrev Tokens := List (Token × Nat)

def skipLines (ts : Tokens) : Tokens :=
  ts.dropWhile (·.1 == .newLine)

/-- Read a word that has to come next. -/
def expectWord (k : String) (ts : Tokens) : Option Tokens :=
  match ts with
  | (t, _) :: rest => if keyword? t = some k.toList then some rest else none
  | [] => none

/-- Read one redirection, its sign already read. -/
def redirection? (fd : Nat) (sign : Bytes) (w : Word) : Redirection :=
  if sign = ['>', '&'] || sign = ['<', '&'] then .copy fd w
  else if sign = ['<'] then .read w
  else .write fd w

/-- Read the words of a simple command. -/
def simpleFrom : Simple → Tokens → Simple × Tokens
  | s, (.redirect fd r, _) :: (.word w, _) :: rest =>
    simpleFrom { s with redirections := s.redirections ++ [redirection? fd r w] } rest
  | s, (.word w, _) :: rest =>
    match s.words, assignment? w with
    | [], some a => simpleFrom { s with assignments := s.assignments ++ [a] } rest
    | _, _ => simpleFrom { s with words := s.words ++ [w] } rest
  | s, ts => (s, ts)

/-- Read redirections behind a compound command. -/
def redirectionsFrom : Tokens → List Redirection × Tokens
  | (.redirect fd r, _) :: (.word w, _) :: rest =>
    let (rs, ts) := redirectionsFrom rest
    (redirection? fd r w :: rs, ts)
  | ts => ([], ts)

/-- Read words up to the end of the line or a semicolon. -/
def wordsFrom : Tokens → List Word × Tokens
  | (.word w, _) :: rest =>
    let (ws, ts) := wordsFrom rest
    (w :: ws, ts)
  | (.newLine, _) :: rest => ([], rest)
  | (.operator [';'], _) :: rest => ([], rest)
  | ts => ([], ts)

/-- Read patterns with bars between them, up to a parenthesis. -/
def patternsFrom : Tokens → Option (List Word × Tokens)
  | (.word w, _) :: (.operator ['|'], _) :: rest =>
    (patternsFrom rest).map fun (ws, ts) => (w :: ws, ts)
  | (.word w, _) :: (.operator [')'], _) :: rest => some ([w], rest)
  | _ => none

mutual

/-- Read commands until a word ends their list. -/
def listFrom : Nat → Tokens → Option (Cmd × Tokens)
  | 0, _ => none
  | fuel + 1, ts =>
    match skipLines ts with
    | [] => some (.skip, [])
    | (t, l) :: rest =>
      if endsList t then some (.skip, (t, l) :: rest)
      else
        (andOrFrom fuel ((t, l) :: rest)).bind fun (c, ts) =>
          match ts with
          | (.operator ['&'], _) :: ts =>
            (listFrom fuel ts).map fun (d, ts) => (.seq (.background c) d, ts)
          | (.operator [';'], _) :: ts => (listFrom fuel ts).map fun (d, ts) => (.seq c d, ts)
          | (.newLine, _) :: ts => (listFrom fuel ts).map fun (d, ts) => (.seq c d, ts)
          | [] => some (c, [])
          | (t, l) :: ts => if endsList t then some (c, (t, l) :: ts) else none

/-- Read pipelines joined by success or failure. -/
def andOrFrom : Nat → Tokens → Option (Cmd × Tokens)
  | 0, _ => none
  | fuel + 1, ts => (pipelineFrom fuel ts).bind fun (c, ts) => joinedFrom fuel c ts

/-- Read the pipelines that are joined to a command. -/
def joinedFrom : Nat → Cmd → Tokens → Option (Cmd × Tokens)
  | 0, _, _ => none
  | fuel + 1, c, ts =>
    match ts with
    | (.operator ['&', '&'], _) :: ts =>
      (pipelineFrom fuel (skipLines ts)).bind fun (d, ts) => joinedFrom fuel (.both c d) ts
    | (.operator ['|', '|'], _) :: ts =>
      (pipelineFrom fuel (skipLines ts)).bind fun (d, ts) => joinedFrom fuel (.either c d) ts
    | ts => some (c, ts)

def pipelineFrom : Nat → Tokens → Option (Cmd × Tokens)
  | 0, _ => none
  | fuel + 1, ts =>
    match expectWord "!" ts with
    | some ts => (pipelineFrom fuel ts).map fun (c, ts) => (.negate c, ts)
    | none =>
      (commandFrom fuel ts).bind fun (c, ts) =>
        match ts with
        | (.operator ['|'], _) :: ts =>
          (pipelineFrom fuel (skipLines ts)).map fun (d, ts) => (.pipe c d, ts)
        | ts => some (c, ts)

def commandFrom : Nat → Tokens → Option (Cmd × Tokens)
  | 0, _ => none
  | fuel + 1, ts =>
    let block (cs : Cmd × Tokens) (last : String) : Option (Cmd × Tokens) :=
      expectWord last cs.2 |>.map fun ts => (cs.1, ts)
    match ts with
    | [] => none
    | (.operator ['('], _) :: ts =>
      (listFrom fuel ts).bind fun (c, ts) =>
        match ts with
        | (.operator [')'], _) :: ts =>
          let (rs, ts) := redirectionsFrom ts
          some (.subshell c rs, ts)
        | _ => none
    | (.operator _, _) :: _ => none
    | (.newLine, _) :: _ => none
    | (t, l) :: rest =>
      match (keyword? t).map String.ofList with
      | some "\x7b" =>
        (listFrom fuel rest).bind (block · "\x7d") |>.map fun (c, ts) =>
          let (rs, ts) := redirectionsFrom ts
          (.group c rs, ts)
      | some "if" => ifFrom fuel rest
      | some "while" => loopFrom fuel true rest
      | some "until" => loopFrom fuel false rest
      | some "case" =>
        match rest with
        | (.word w, _) :: rest =>
          (expectWord "in" (skipLines rest)).bind fun ts =>
            (branchesFrom fuel w ts).map fun (c, ts) =>
              let (rs, ts) := redirectionsFrom ts
              (.group c rs, ts)
        | _ => none
      | some "for" =>
        match rest with
        | (name, _) :: (i, _) :: rest =>
          if keyword? i = some ['i', 'n'] then
            let (ws, ts) := wordsFrom rest
            (expectWord "do" (skipLines ts)).bind fun ts =>
              (listFrom fuel ts).bind (block · "done") |>.map fun (c, ts) =>
                let (rs, ts) := redirectionsFrom ts
                (.group (.forEach ((keyword? name).getD []) ws c) rs, ts)
          else none
        | _ => none
      | _ =>
        let (s, ts) := simpleFrom { line := l } ((t, l) :: rest)
        if s.words = [] && s.assignments = [] && s.redirections = [] then none
        else some (.simple s, ts)

/-- Read a condition with what depends on it. -/
def ifFrom : Nat → Tokens → Option (Cmd × Tokens)
  | 0, _ => none
  | fuel + 1, ts =>
    (listFrom fuel ts).bind fun (test, ts) =>
      (expectWord "then" ts).bind fun ts =>
        (listFrom fuel ts).bind fun (yes, ts) =>
          match expectWord "fi" ts, expectWord "else" ts, expectWord "elif" ts with
          | some ts, _, _ =>
            let (rs, ts) := redirectionsFrom ts
            some (.group (.choose test yes .skip) rs, ts)
          | _, some ts, _ =>
            (listFrom fuel ts).bind fun (no, ts) =>
              (expectWord "fi" ts).map fun ts =>
                let (rs, ts) := redirectionsFrom ts
                (.group (.choose test yes no) rs, ts)
          | _, _, some ts => (ifFrom fuel ts).map fun (no, ts) => (.choose test yes no, ts)
          | none, none, none => none

/-- Read the branches for a word. -/
def branchesFrom : Nat → Word → Tokens → Option (Cmd × Tokens)
  | 0, _, _ => none
  | fuel + 1, w, ts =>
    let ts := skipLines ts
    match expectWord "esac" ts with
    | some ts => some (.skip, ts)
    | none =>
      let ts := match ts with
        | (.operator ['('], _) :: ts => ts
        | ts => ts
      (patternsFrom ts).bind fun (patterns, ts) =>
        (listFrom fuel ts).bind fun (body, ts) =>
          let ts := match ts with
            | (.operator [';', ';'], _) :: ts => ts
            | ts => ts
          (branchesFrom fuel w ts).map fun (others, ts) =>
            (.choose (.fits w patterns) body others, ts)

def loopFrom : Nat → Bool → Tokens → Option (Cmd × Tokens)
  | 0, _, _ => none
  | fuel + 1, expected, ts =>
    (listFrom fuel ts).bind fun (test, ts) =>
      (expectWord "do" ts).bind fun ts =>
        (listFrom fuel ts).bind fun (body, ts) =>
          (expectWord "done" ts).map fun ts =>
            let (rs, ts) := redirectionsFrom ts
            (.group (.repeat test body expected) rs, ts)

end

/-- The command that a script is, if it can be read. -/
def parseScript (cs : Bytes) : Option Cmd :=
  (tokens (2 * cs.length + 2) 1 cs).bind fun ts =>
    match listFrom (8 * ts.length + 8) ts with
    | some (c, []) => some c
    | _ => none

end Lintmark.Shell
