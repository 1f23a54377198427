/-
Running scripts.  Each step costs fuel; a script that uses up its fuel counts as
one that does not end.
-/
import Lintmark.Shell.Builtin

namespace Lintmark.Shell

/-- The time it takes to start a program: one millisecond. -/
def launchTime : Nat := 1000000

/-- A redirection as written, with its word. -/
def Redirection.word : Redirection → Word
  | .write _ w => w
  | .read w => w
  | .copy _ w => w

/-- A redirection with the path that its word gives. -/
def Redirection.target (r : Redirection) (path : Bytes) : Target :=
  match r with
  | .write fd _ => .write fd path
  | .read _ => .read path
  | .copy fd _ => .copy fd path

/-- The redirections that a command carries out for itself. -/
def Cmd.redirections : Cmd → List Redirection
  | .simple c => c.redirections
  | .group _ rs => rs
  | .subshell _ rs => rs
  | _ => []

/-- Without line feeds at the end. -/
def dropLineEnds (cs : Bytes) : Bytes :=
  (cs.reverse.dropWhile (· == '\n')).reverse

/-- A word that stands for all parameters and nothing else. -/
def isAllParams : Word → Bool
  | [.quoted [], .parameter ['@'] true] => true
  | _ => false

/-- The piece runs a script. -/
def Piece.isOutput : Piece → Bool
  | .output _ _ => true
  | _ => false

/-- Parts of a shell's arguments: the script, its name and what it is given. -/
inductive Invocation where
  | text (script : Bytes) (name? : Option Bytes) (params : List Bytes)
  | file (path : Bytes) (params : List Bytes)
  | fromInput
deriving Repr, DecidableEq

/-- Read the arguments of a shell: what it runs, and whether it is strict. -/
def Invocation.ofArgs : Bool → List Bytes → Invocation × Bool
  | strict, ('-' :: f :: flags) :: rest =>
    let strict := strict || (f :: flags).contains 'e'
    match rest with
    | script :: rest' =>
      if (f :: flags).contains 'c' then (.text script rest'.head? (rest'.drop 1), strict)
      else ofArgs strict (script :: rest')
    | [] => (.fromInput, strict)
  | strict, path :: params => (.file path params, strict)
  | strict, [] => (.fromInput, strict)

/-- Assignments in front of the program that `env` runs. -/
def envWords (args : List Bytes) : List Bytes :=
  args.dropWhile (·.contains '=')

mutual

def exec (h : Host) : Nat → Cmd → Session → Session
  | 0, _, s => { s with finish := some .never }
  | fuel + 1, c, s =>
    if s.isDone then s
    else
      match c with
      | .skip => s
      | .simple c => (simple h fuel c s).checked
      | .fits w patterns =>
        let (text, s) := expandOne h fuel w s
        let (found, s) := patterns.foldl (fun (found, s) w =>
          let (p, s) := patternOf h fuel w s
          (found || fitsPattern p text, s)) (false, s)
        { s with status := if found then 0 else 1 }
      | .seq a b => exec h fuel b (exec h fuel a s)
      | .negate a =>
        let s := guardedly h fuel a s
        { s with status := if s.status == 0 then 1 else 0 }
      | .both a b =>
        let s := guardedly h fuel a s
        if s.status == 0 then exec h fuel b s else s
      | .either a b =>
        let s := guardedly h fuel a s
        if s.status == 0 then s else exec h fuel b s
      | .choose test yes no =>
        let s := guardedly h fuel test s
        if s.status == 0 then exec h fuel yes s
        else exec h fuel no { s with status := 0 }
      | .repeat test body expected =>
        let s := guardedly h fuel test s
        if s.isDone || (s.status == 0) != expected then
          { s with status := 0 }
        else exec h fuel (.repeat test body expected) (exec h fuel body s)
      | .forEach name words body =>
        let (fields, s) := expandAll h fuel words s
        fields.foldl (fun s value => exec h fuel body (if s.isDone then s else s.set name value))
          { s with status := 0 }
      | .group c rs =>
        redirected h fuel rs s fun inner => exec h fuel c inner
      | .subshell c rs =>
        (redirected h fuel rs s fun inner => inner.awaitCopy (exec h fuel c inner.fork)).checked
      | .pipe a b =>
        let channel := s.fresh
        let left := exec h fuel a { s.fork with out := channel, fresh := channel + 1 }
        let input : Input := ⟨left.chunks channel, left.closed? channel⟩
        let right := exec h fuel b { s.fork.adopt left with input := input }
        let ended := s.awaitCopy right
        match left.stop? with
        | some t => { ended with now := max t ended.now, input := left.input }.checked
        | none => { ended with finish := some .never }
      | .background c =>
        let child := exec h fuel c { s.fork with input := ⟨[], some s.now⟩ }
        let (targets, _) := targetsOf h fuel c.redirections s
        let holder := match s.redirect h targets with
          | .ok inner => inner
          | .error _ => s
        let stop := child.stop?
        { s.adopt child with
          holds := (holder.out, stop) :: (holder.err, stop) ::
            if s.keepsInput then (inputChannel, stop) :: child.holds else child.holds
          jobs := stop :: s.jobs
          status := 0 }

/-- Run a command whose failure is asked for. -/
def guardedly (h : Host) : Nat → Cmd → Session → Session
  | 0, _, s => { s with finish := some .never }
  | fuel + 1, c, s => { exec h fuel c { s with guarded := true } with guarded := s.guarded }

/-- Run something under redirections. -/
def redirected (h : Host) : Nat → List Redirection → Session → (Session → Session) → Session
  | 0, _, s, _ => { s with finish := some .never }
  | fuel + 1, rs, s, body =>
    let (targets, s) := targetsOf h fuel rs s
    match s.redirect h targets with
    | .ok inner => s.restore (body inner) targets
    | .error why => s.complain 1 2 why

def simple (h : Host) : Nat → Simple → Session → Session
  | 0, _, s => { s with finish := some .never }
  | fuel + 1, c, s =>
    let (fields, s) := expandAll h fuel c.words s
    let (values, s) := c.assignments.foldl (fun (values, s) (name, w) =>
      let (value, s) := expandOne h fuel w s
      (values ++ [(name, value)], s)) (([] : List (Bytes × Bytes)), s)
    let (targets, s) := targetsOf h fuel c.redirections s
    if s.isDone then s
    else
      match s.redirect h targets with
      | .error why => s.complain c.line 2 why
      | .ok inner =>
        let assign (s : Session) : Session := values.foldl (fun s (name, v) => s.set name v) s
        match fields with
        | [] =>
          let status := if c.assignments.any (·.2.any Piece.isOutput) then s.status else 0
          { assign (s.restore inner targets) with status := status }
        | [['e', 'x', 'e', 'c']] => assign inner
        | name :: args =>
          let after := invoke h fuel c.line name args (assign inner)
          { s.restore after targets with vars := if values = [] then after.vars else s.vars }

/-- Run a command of the shell or a program. -/
def invoke (h : Host) : Nat → Nat → Bytes → List Bytes → Session → Session
  | 0, _, _, _, s => { s with finish := some .never }
  | fuel + 1, line, name, args, s =>
    match builtin? h line (String.ofList name) args s with
    | some s => s
    | none =>
      match String.ofList name, args with
      | "eval", args => script h fuel (spaced args) s
      | "command", name :: args => invoke h fuel line name args s
      | "exec", name :: args =>
        let child := launch h fuel line (ofText "exec: ") name args s
        { s.adopt child with
          input := child.input, now := child.now, finish := some child.ending }
      | _, _ => s.await (launch h fuel line [] name args s)

/-- Start a program and let it run to its end.  Complaints are made on behalf of
another command. -/
def launch (h : Host) : Nat → Nat → Bytes → Bytes → List Bytes → Session → Session
  | 0, _, _, _, _, s => { s with finish := some .never }
  | fuel + 1, line, behalf, name, args, s =>
    match h.start s.dir ⟨toText name⟩ with
    | .ok (tool, before) => program h fuel name tool (before ++ args) s.fork
    | .error .notExecutable => program h fuel name .sh (name :: args) s.fork
    | .error .accessDenied => s.complain line 126 (behalf ++ name ++ ofText ": Permission denied")
    | .error _ => s.complain line 127 (behalf ++ name ++ ofText ": not found")

def program (h : Host) : Nat → Bytes → Tool → List Bytes → Session → Session
  | 0, _, _, _, s => { s with finish := some .never }
  | fuel + 1, name, tool, args, s =>
    let s := { s with now := s.now + launchTime, status := 0 }
    match tool with
    | .sh =>
      let (what, strict) := Invocation.ofArgs false args
      let s := { s with pid := s.pid + 1, jobs := [], strict := strict, guarded := false }
      match what with
      | .text text name? params =>
        script h fuel text { s with name := name?.getD name, params := params }
      | .file path params =>
        match (s.place h).read path with
        | .ends (.ok text) => script h fuel text { s with name := path, params := params }
        | .ends (.error _) =>
          { s with name := name }.complain 0 2
            (ofText "cannot open " ++ path ++ ofText ": No such file")
        | _ => { s with finish := some .never }
      | .fromInput =>
        match s.input.eof with
        | some t =>
          script h fuel s.input.all
            { s with name := name, now := max s.now t, input := { s.input with chunks := [] } }
        | none => { s with finish := some .never }
    | .env =>
      match envWords args with
      | name :: args => s.await (launch h fuel 0 [] name args s)
      | [] => s
    | tool => s.perform (tool.run (s.place h) args)

def script (h : Host) : Nat → Bytes → Session → Session
  | 0, _, s => { s with finish := some .never }
  | fuel + 1, text, s =>
    match parseScript text with
    | some c => exec h fuel c s
    | none => { s.complain 1 2 (ofText "Syntax error") with finish := some (.exited 2) }

/-- The output of a script, and what the shell is like behind it. -/
def capture (h : Host) : Nat → Bytes → Session → Bytes × Session
  | 0, _, s => ([], { s with finish := some .never })
  | fuel + 1, text, s =>
    let channel := s.fresh
    let child := script h fuel text { s.fork with out := channel, fresh := channel + 1 }
    let after := s.awaitCopy child
    let output := (child.chunks channel).flatMap (·.2)
    (dropLineEnds output, match child.closed? channel with
      | some t => { after with now := max t after.now }
      | none => { after with finish := some .never })

/-- Put the pieces of a word together. -/
def draft (h : Host) : Nat → Word → Session → Draft × Session
  | 0, _, s => ({}, { s with finish := some .never })
  | fuel + 1, w, s =>
    w.foldl (fun (d, s) p =>
      match p with
      | .plain cs => (d.add cs, s)
      | .quoted cs => (d.add cs, s)
      | .parameter ['@'] true => (d.addFields s.params, s)
      | .parameter name inQuotes => (d.put inQuotes (s.textOf name), s)
      | .output text inQuotes =>
        let (output, s) := capture h fuel text s
        (d.put inQuotes output, s)) (({} : Draft), s)

/-- The pattern that a word gives. -/
def patternOf (h : Host) : Nat → Word → Session → Pattern × Session
  | 0, _, s => ([], { s with finish := some .never })
  | fuel + 1, w, s =>
    w.foldl (fun (ps, s) p =>
      let (text, s) := expandOne h fuel [p] s
      let special := match p with
        | .plain _ => true
        | .parameter _ inQuotes => !inQuotes
        | .output _ inQuotes => !inQuotes
        | .quoted _ => false
      (ps ++ text.map fun c => (c, special), s)) (([] : Pattern), s)

/-- The one text that a word gives. -/
def expandOne (h : Host) : Nat → Word → Session → Bytes × Session
  | 0, _, s => ([], { s with finish := some .never })
  | fuel + 1, w, s =>
    let whole : Word := w.map fun
      | .parameter name _ => .parameter (if name = ['@'] then ['*'] else name) true
      | .output text _ => .output text true
      | p => p
    let (d, s) := draft h fuel whole s
    (spaced d.done, s)

/-- The fields that words give. -/
def expandAll (h : Host) : Nat → List Word → Session → List Bytes × Session
  | 0, _, s => ([], { s with finish := some .never })
  | fuel + 1, ws, s =>
    ws.foldl (fun (fields, s) w =>
      if isAllParams w then (fields ++ s.params, s)
      else
        let (d, s) := draft h fuel w s
        (fields ++ d.done, s)) (([] : List Bytes), s)

/-- Redirections with their paths. -/
def targetsOf (h : Host) : Nat → List Redirection → Session → List Target × Session
  | 0, _, s => ([], { s with finish := some .never })
  | fuel + 1, rs, s =>
    rs.foldl (fun (targets, s) r =>
      let (path, s) := expandOne h fuel r.word s
      (targets ++ [r.target path], s)) (([] : List Target), s)

end

end Lintmark.Shell
