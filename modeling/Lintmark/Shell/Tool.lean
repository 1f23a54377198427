/-
The small programs that scripts use.  Each takes its arguments and its input,
and gives the bytes that it writes, with their times, and how and when it ends.
-/
import Lintmark.FileTree
import Lintmark.Shell.Bytes

namespace Lintmark.Shell

/-- Input of a program: bytes that arrive over time, and when they end. -/
structure Input where
  chunks : List (Nat × Bytes) := []
  eof : Option Nat
deriving Repr, DecidableEq

/-- The later of a time and another one, which may never come. -/
def later (now : Nat) (t : Option Nat) : Option Nat :=
  t.map (max now)

def Input.all (i : Input) : Bytes :=
  i.chunks.flatMap (·.2)

/-- The first bytes of an input, at most so many, when the last of them came,
and the input behind them. -/
def Input.take (i : Input) (now count : Nat) : Bytes × Option Nat × Input :=
  let rec go : Nat → Nat → Bytes → List (Nat × Bytes) → Bytes × Option Nat × Input
    | t, 0, done, chunks => (done, some t, ⟨chunks, i.eof⟩)
    | t, _, done, [] => (done, later t i.eof, ⟨[], i.eof⟩)
    | t, count, done, (t', bytes) :: chunks =>
      let t := max t t'
      if bytes.length < count then go t (count - bytes.length) (done ++ bytes) chunks
      else
        let rest := bytes.drop count
        (done ++ bytes.take count, some t,
          ⟨if rest = [] then chunks else (t', rest) :: chunks, i.eof⟩)
  go now count [] i.chunks

structure Effect where
  status : Nat := 0
  stop : Option Nat
  out : List (Nat × Bytes) := []
  err : List (Nat × Bytes) := []
  left : Input
deriving Repr, DecidableEq

/-- What a program finds around it. -/
structure Place where
  files : FileTree
  dir : Location
  now : Nat
  input : Input

/-- Write something at once and end. -/
def Place.say (p : Place) (status : Nat) (out err : Bytes) : Effect :=
  { status := status, stop := some p.now
    out := if out = [] then [] else [(p.now, out)]
    err := if err = [] then [] else [(p.now, err)], left := p.input }

inductive Tool where
  | sh
  | cat
  | echo
  | printf
  | pwd
  | sleep
  | head
  | tr
  | wc
  | yes (success : Bool)
  | env
deriving Repr, DecidableEq

def Tool.names : List (String × Tool) :=
  [("sh", .sh), ("dash", .sh), ("bash", .sh), ("env", .env), ("cat", .cat), ("echo", .echo),
    ("printf", .printf), ("pwd", .pwd), ("sleep", .sleep), ("head", .head), ("tr", .tr),
    ("wc", .wc), ("true", .yes true), ("false", .yes false)]

def Place.read (p : Place) (path : Bytes) : Attempt (Except SystemError Bytes) :=
  (p.files.read p.dir ⟨toText path⟩).map fun bytes => bytes.map ofBytes

/-- The wording of an error without its number. -/
def reason (e : SystemError) : Bytes :=
  match e with
  | .code n => ofText (SystemError.textOf n)
  | e => ofText e.message

/-- A complaint of a program about a file. -/
def complaint (tool : String) (path : Bytes) (e : SystemError) : Bytes :=
  ofText tool ++ ofText ": " ++ path ++ ofText ": " ++ reason e ++ ['\n']

/-- Copy files, or the input, to the output. -/
def cat (p : Place) (args : List Bytes) : Effect :=
  let step (e : Effect) (arg : Bytes) : Effect :=
    match e.stop with
    | none => e
    | some now =>
      if arg = ['-'] then
        { e with stop := later now e.left.eof
                 out := e.out ++ e.left.chunks.map fun (t, b) => (max now t, b)
                 left := { e.left with chunks := [] } }
      else
        match p.read arg with
        | .ends (.ok bytes) => { e with out := e.out ++ [(now, bytes)] }
        | .ends (.error cause) =>
          { e with status := 1, err := e.err ++ [(now, complaint "cat" arg cause)] }
        | _ => { e with stop := none }
  (if args = [] then [['-']] else args).foldl step { stop := some p.now, left := p.input }

/-- Write the escapes of a text: octal numbers with a zero in front, and without
one unless `zero`.  Also tells whether the text asks to stop. -/
def unescape (zero : Bool) : Nat → Bytes → Bytes × Bool
  | 0, _ => ([], false)
  | fuel + 1, cs =>
    match cs with
    | [] => ([], false)
    | '\\' :: 'c' :: _ => ([], true)
    | '\\' :: c :: rest =>
      let digits := if c = '0' then rest else if zero then [] else c :: rest
      let (v, behind) := octal 3 digits
      if behind.length < digits.length || c = '0' then
        let (out, halt) := unescape zero fuel behind
        (Char.ofNat (v % 256) :: out, halt)
      else
        match escapeLetter? c with
        | some e =>
          let (out, halt) := unescape zero fuel rest
          (e :: out, halt)
        | none =>
          let (out, halt) := unescape zero fuel rest
          ('\\' :: c :: out, halt)
    | c :: rest =>
      let (out, halt) := unescape zero fuel rest
      (c :: out, halt)

/-- Words with a blank between them. -/
def spaced (ws : List Bytes) : Bytes :=
  [' '].intercalate ws

/-- Write the arguments on a line, their escapes replaced if `escapes`. -/
def echo (escapes : Bool) (p : Place) (args : List Bytes) : Effect :=
  let (bare, args) := match args with
    | ['-', 'n'] :: args => (true, args)
    | args => (false, args)
  let text := spaced args
  let (out, halt) := if escapes then unescape true (text.length + 1) text else (text, false)
  p.say 0 (if bare || halt then out else out ++ ['\n']) []

/-- One directive of a format: flags, width, precision and conversion. -/
structure Directive where
  flags : Bytes
  width : Nat
  precision : Option Nat
  conversion : Char
deriving Repr, DecidableEq

/-- Read a directive behind its percent sign. -/
def directive? (cs : Bytes) : Option (Directive × Bytes) :=
  let flags := cs.takeWhile fun c => ['-', '0', '+', ' ', '#'].contains c
  let cs := cs.drop flags.length
  let width := cs.takeWhile Char.isDigit
  let cs := cs.drop width.length
  let (precision, cs) := match cs with
    | '.' :: rest =>
      let ds := rest.takeWhile Char.isDigit
      (some ((natural? ds).getD 0), rest.drop ds.length)
    | cs => (none, cs)
  match cs with
  | c :: rest => some (⟨flags, (natural? width).getD 0, precision, c⟩, rest)
  | [] => none

/-- Fill a text up to the width of a directive. -/
def Directive.pad (d : Directive) (text : Bytes) : Bytes :=
  let gap := d.width - text.length
  if d.flags.contains '-' then text ++ List.replicate gap ' '
  else if d.flags.contains '0' && d.conversion != 's' then
    match text with
    | '-' :: rest => '-' :: List.replicate gap '0' ++ rest
    | text => List.replicate gap '0' ++ text
  else List.replicate gap ' ' ++ text

/-- The text of an argument under a directive. -/
def Directive.show (d : Directive) (arg : Bytes) : Bytes :=
  let cut (cs : Bytes) : Bytes := match d.precision with
    | some n => cs.take n
    | none => cs
  let number := (integer? arg).getD 0
  match d.conversion with
  | 's' => d.pad (cut arg)
  | 'b' => d.pad (cut (unescape false (arg.length + 1) arg).1)
  | 'c' => d.pad (arg.take 1)
  | 'x' => d.pad (Nat.toDigits 16 number.toNat)
  | 'X' => d.pad ((Nat.toDigits 16 number.toNat).map Char.toUpper)
  | 'o' => d.pad (Nat.toDigits 8 number.toNat)
  | 'u' => d.pad (decimal number.toNat)
  | _ =>
    let digits := decimal number.natAbs
    d.pad (if number < 0 then '-' :: digits
      else if d.flags.contains '+' then '+' :: digits else digits)

/-- Write a format once: the text, and the arguments that are left. -/
def formatOnce : Nat → Bytes → List Bytes → Bytes × List Bytes
  | 0, _, args => ([], args)
  | fuel + 1, cs, args =>
    match cs with
    | [] => ([], args)
    | '%' :: '%' :: rest =>
      let (out, args) := formatOnce fuel rest args
      ('%' :: out, args)
    | '%' :: rest =>
      match directive? rest with
      | some (d, rest) =>
        let (out, left) := formatOnce fuel rest (args.drop 1)
        (d.show (args.head?.getD []) ++ out, left)
      | none => (['%'], args)
    | '\\' :: c :: rest =>
      let (v, behind) := octal 3 (c :: rest)
      if behind.length ≤ rest.length then
        let (out, args) := formatOnce fuel behind args
        (Char.ofNat (v % 256) :: out, args)
      else
        let (out, args) := formatOnce fuel rest args
        match escapeLetter? c with
        | some e => (e :: out, args)
        | none => ('\\' :: c :: out, args)
    | c :: rest =>
      let (out, args) := formatOnce fuel rest args
      (c :: out, args)

/-- Write a format again and again until no argument is left. -/
def formatAll : Nat → Bytes → List Bytes → Bytes
  | 0, _, _ => []
  | fuel + 1, cs, args =>
    let (out, left) := formatOnce (cs.length + 1) cs args
    if left = [] || left.length = args.length then out else out ++ formatAll fuel cs left

/-- Write the arguments by a format. -/
def printf (p : Place) (args : List Bytes) : Effect :=
  match args with
  | [] => p.say 2 [] (ofText "printf: missing operand\n")
  | format :: args => p.say 0 (formatAll (args.length + 1) format args) []

/-- The nanoseconds of a number of seconds, minutes, hours or days. -/
def nanos? (arg : Bytes) : Option Nat :=
  let (number, unit) := match arg.reverse with
    | 's' :: r => (r.reverse, 1)
    | 'm' :: r => (r.reverse, 60)
    | 'h' :: r => (r.reverse, 3600)
    | 'd' :: r => (r.reverse, 86400)
    | _ => (arg, 1)
  let whole := number.takeWhile Char.isDigit
  let fraction := (number.drop whole.length).drop 1
  if number.head? = some '.' || whole ≠ [] then
    if (number.drop whole.length).head?.all (· == '.') && fraction.all Char.isDigit then
      let value := (natural? (whole ++ fraction)).getD 0
      some (value * unit * 1000000000 / Nat.pow 10 fraction.length)
    else none
  else none

def misused (tool : String) (why : Bytes) : Bytes :=
  ofText tool ++ ofText ": " ++ why ++
    ofText ("\nTry '" ++ tool ++ " --help' for more information.\n")

def sleep (p : Place) (args : List Bytes) : Effect :=
  match args, args.mapM nanos? with
  | [], _ => p.say 1 [] (misused "sleep" (ofText "missing operand"))
  | _, some times => { stop := some (p.now + times.foldr (· + ·) 0), left := p.input }
  | _, none =>
    let arg := (args.find? fun a => (nanos? a).isNone).getD []
    p.say 1 [] (misused "sleep" (ofText "invalid time interval '" ++ arg ++ ['\'']))

/-- The part in front that `head` shows: bytes or lines. -/
inductive Amount where
  | bytes (n : Nat)
  | lines (n : Nat)
deriving Repr, DecidableEq

/-- Read the options of `head`. -/
def headOptions : Amount → List Bytes → Amount × List Bytes
  | a, ['-', 'c'] :: n :: args => headOptions (((natural? n).map .bytes).getD a) args
  | a, ['-', 'n'] :: n :: args => headOptions (((natural? n).map .lines).getD a) args
  | a, ('-' :: 'c' :: n) :: args => headOptions (((natural? n).map .bytes).getD a) args
  | a, ('-' :: 'n' :: n) :: args => headOptions (((natural? n).map .lines).getD a) args
  | a, ('-' :: d :: n) :: args =>
    match natural? (d :: n) with
    | some n => headOptions (.lines n) args
    | none => (a, ('-' :: d :: n) :: args)
  | a, args => (a, args)

def firstLines : Nat → Bytes → Bytes
  | 0, _ => []
  | _, [] => []
  | n + 1, c :: cs => c :: firstLines (if c = '\n' then n else n + 1) cs

/-- Show the first part of files, or of the input. -/
def head (p : Place) (args : List Bytes) : Effect :=
  let (amount, files) := headOptions (.lines 10) args
  match files with
  | [] =>
    match amount with
    | .bytes n =>
      let (out, stop, left) := p.input.take p.now n
      { stop := stop, out := [(stop.getD p.now, out)], left := left }
    | .lines n =>
      let stop := later p.now p.input.eof
      { stop := stop, out := [(stop.getD p.now, firstLines n p.input.all)]
        left := ⟨[], p.input.eof⟩ }
  | file :: _ =>
    match p.read file, amount with
    | .ends (.ok bytes), .bytes n => p.say 0 (bytes.take n) []
    | .ends (.ok bytes), .lines n => p.say 0 (firstLines n bytes) []
    | .ends (.error cause), _ =>
      p.say 1 [] (ofText "head: cannot open '" ++ file ++ ofText "' for reading: " ++
        reason cause ++ ['\n'])
    | _, .bytes n => p.say 0 (List.replicate n '\x00') []
    | _, .lines _ => { stop := none, left := p.input }

/-- The characters of a set: escapes and ranges written out. -/
def setOf : Nat → Bytes → Bytes
  | 0, _ => []
  | fuel + 1, cs =>
    match cs with
    | [] => []
    | '\\' :: c :: rest =>
      let (v, behind) := octal 3 (c :: rest)
      if behind.length ≤ rest.length then Char.ofNat (v % 256) :: setOf fuel behind
      else (escapeLetter? c).getD c :: setOf fuel rest
    | a :: '-' :: b :: rest =>
      if a ≤ b then
        (List.range (b.toNat - a.toNat + 1)).map (fun k => Char.ofNat (a.toNat + k)) ++
          setOf fuel rest
      else setOf fuel rest
    | c :: rest => c :: setOf fuel rest

/-- The character that stands for another one; the last one of the second set
stands for all that it has no partner for. -/
def partner (set others : Bytes) (c : Char) : Char :=
  let k := (set.takeWhile (· != c)).length
  if k < set.length then (others[k]?.or others.getLast?).getD c else c

/-- Replace or drop characters of the input. -/
def tr (p : Place) (args : List Bytes) : Effect :=
  let stop := later p.now p.input.eof
  let set (cs : Bytes) : Bytes := setOf (cs.length + 1) cs
  let all := p.input.all
  let done (out : Bytes) : Effect :=
    { stop := stop, out := [(stop.getD p.now, out)], left := ⟨[], p.input.eof⟩ }
  match args with
  | [['-', 'd'], a] =>
    let a := set a
    done (all.filter fun c => !a.contains c)
  | [a, b] =>
    let a := set a
    let b := set b
    done (all.map (partner a b))
  | [] => p.say 1 [] (misused "tr" (ofText "missing operand"))
  | a :: _ =>
    p.say 1 [] (misused "tr" (ofText "missing operand after '" ++ a ++
      ofText "'\nTwo strings must be given when translating."))

def wordCount (cs : Bytes) : Nat :=
  ((cs.map fun c => if c.isWhitespace then ' ' else c).splitOn ' ').countP (· != [])

/-- Count lines, words and bytes of the input or a file. -/
def wc (p : Place) (args : List Bytes) : Effect :=
  let flags := (args.filter fun a => a.head? = some '-' && a.length > 1).flatMap (·.drop 1)
  let file := args.find? fun a => a.head? ≠ some '-'
  let flags := if flags = [] then ['l', 'w', 'c'] else flags
  let counts (cs : Bytes) : List Nat :=
    (if flags.contains 'l' then [cs.count '\n'] else []) ++
      (if flags.contains 'w' then [wordCount cs] else []) ++
      (if flags.contains 'm' then [(toText cs).length] else []) ++
      (if flags.contains 'c' then [cs.length] else [])
  let row (width : Nat) (cs : Bytes) : Bytes :=
    match counts cs with
    | [n] => decimal n
    | ns => spaced (ns.map fun n =>
        let ds := decimal n
        List.replicate (width - ds.length) ' ' ++ ds)
  match file with
  | none =>
    let stop := later p.now p.input.eof
    { stop := stop, out := [(stop.getD p.now, row 7 p.input.all ++ ['\n'])]
      left := ⟨[], p.input.eof⟩ }
  | some file =>
    match p.read file with
    | .ends (.ok bytes) =>
      p.say 0 (row (decimal bytes.length).length bytes ++ ' ' :: file ++ ['\n']) []
    | .ends (.error cause) => p.say 1 [] (complaint "wc" file cause)
    | _ => { stop := none, left := p.input }

/-- Run a program other than the shell. -/
def Tool.run (t : Tool) (p : Place) (args : List Bytes) : Effect :=
  match t with
  | .cat => Shell.cat p args
  | .echo => Shell.echo false p args
  | .printf => Shell.printf p args
  | .pwd => p.say 0 (ofText (FileTree.pathOf p.dir).text ++ ['\n']) []
  | .sleep => Shell.sleep p args
  | .head => Shell.head p args
  | .tr => Shell.tr p args
  | .wc => Shell.wc p args
  | .yes success => p.say (if success then 0 else 1) [] []
  | .sh | .env => p.say 0 [] []

end Lintmark.Shell
