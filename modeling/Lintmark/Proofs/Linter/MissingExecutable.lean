/-
When the linter is said to be missing.  A run says so of its executable whenever the
system found something missing at the start, which may be something else.
-/
import Lintmark.Linter.Program
import Lintmark.Proofs.Command.Deadline

namespace Lintmark

/-- What a run that found no child to wait for says: its command, the executable, and the
answer of the system. -/
def Ending.refusal? : Ending → Option (String × Path × SystemError)
  | returned _ (.error (.spawn command executable cause)) => some (command, executable, cause)
  | _ => none

theorem Ending.OfChild.refusal?_eq_none {c : Command}
    {feeding : Fate (Except SystemError Unit)} {ending : Ending}
    (h : ending.OfChild c feeding) : ending.refusal? = none := by
  cases h <;> rfl

namespace Command

variable {c : Command} {s : Surroundings}

/-- A run with a deadline hands on what the system says at the start, and only that. -/
theorem run_refusal?_eq_some_iff {command : String} {executable : Path}
    {cause : SystemError} :
    (c.run s).ending.refusal? = some (command, executable, cause) ↔
      (deadline? s.start c.timeout).isSome ∧ s.spawn = .error cause ∧
        command = c.line ∧ executable = c.executable := by
  cases hdeadline : deadline? s.start c.timeout with
  | none =>
      rw [run_crashed_iff.mpr hdeadline]
      simp [Ending.refusal?]
  | some deadline =>
      cases hspawn : s.spawn with
      | ok =>
          rw [(run_ofChild hdeadline hspawn).refusal?_eq_none]
          simp
      | error cause' =>
          rw [run_of_not_spawned hdeadline hspawn]
          simp only [Ending.refusal?, Option.some.injEq, Prod.mk.injEq, Except.error.injEq,
            Option.isSome_some, true_and]
          constructor
          · rintro ⟨rfl, rfl, rfl⟩
            exact ⟨rfl, rfl, rfl⟩
          · rintro ⟨rfl, rfl, rfl⟩
            exact ⟨rfl, rfl, rfl⟩

end Command

theorem CommandError.toInvocation_eq_missingExecutable_iff {e : CommandError} {p : Path} :
    e.toInvocation = .missingExecutable p ↔
      ∃ command cause, e = .spawn command p cause ∧ cause.isNotFound := by
  cases e with
  | spawn command executable cause =>
      rw [toInvocation]
      split
      case isTrue hcause =>
        constructor
        · rintro ⟨rfl⟩
          exact ⟨command, cause, rfl, hcause⟩
        · rintro ⟨command', cause', ⟨rfl⟩, -⟩
          rfl
      case isFalse hcause =>
        refine iff_of_false nofun ?_
        rintro ⟨command', cause', ⟨rfl⟩, hcause'⟩
        exact hcause hcause'
  | io cause => simp [toInvocation]
  | timeout command limit => simp [toInvocation]

namespace LinterProgram

variable {l : LinterProgram} {r : LintRequest} {p : Path}

theorem missingExecutable_iff_refusal? {around : Command → Surroundings} :
    let c := Command.lint l.executable l.timeout r
    l.linter (.within around) r = .ends (.error (.missingExecutable p)) ↔
      ∃ command cause, (c.run (around c)).ending.refusal? = some (command, p, cause) ∧
        cause.isNotFound := by
  intro c
  rw [linter, Runner.within]
  cases (c.run (around c)).ending with
  | returned t result =>
      cases result with
      | ok output => simp [Ending.attempt, Ending.refusal?]
      | error e =>
          simp only [Ending.attempt, Attempt.map_ends, Attempt.ends.injEq, Except.error.injEq,
            CommandError.toInvocation_eq_missingExecutable_iff]
          cases e <;> simp [Ending.refusal?]
  | stuck => simp [Ending.attempt, Ending.refusal?, Attempt.map]
  | crashed => simp [Ending.attempt, Ending.refusal?, Attempt.map]

/-- In all surroundings, the executable is said to be missing exactly if the system finds
something missing at the start of the command. -/
theorem missingExecutable_iff_spawn {around : Command → Surroundings} :
    let s := around (.lint l.executable l.timeout r)
    l.linter (.within around) r = .ends (.error (.missingExecutable p)) ↔
      p = l.executable ∧ (deadline? s.start l.timeout).isSome ∧
        ∃ cause, s.spawn = .error cause ∧ cause.isNotFound := by
  intro s
  simp only [missingExecutable_iff_refusal?, Command.run_refusal?_eq_some_iff]
  constructor
  · rintro ⟨command, cause, ⟨hdeadline, hspawn, -, hp⟩, hcause⟩
    exact ⟨hp, hdeadline, cause, hspawn, hcause⟩
  · rintro ⟨hp, hdeadline, cause, hspawn, hcause⟩
    exact ⟨_, cause, ⟨hdeadline, hspawn, rfl, hp⟩, hcause⟩

end LinterProgram

/-- What there is of the files that commands need, as the system sees them. -/
structure Environment where
  /-- Something stands where a path leads, from a directory or from the current one. -/
  Exists : Option Path → Path → Prop
  /-- The interpreters that it takes to execute the file that a path leads to, such as that
  of a script, and those that it takes to execute these. -/
  interpreters : Option Path → Path → List Path
  /-- Directories in which bare names are looked up. -/
  searchPath : List Path

namespace Environment

variable {e : Environment} {c : Command} {spawn : Except SystemError Unit}

/-- The paths that an executable may have: itself if it has a slash, and otherwise one in
each directory of the search path. -/
def lookups (e : Environment) (executable : Path) : List Path :=
  if executable.text = "" then []
  else if executable.text.toList.contains '/' then [executable]
  else e.searchPath.map (·.join executable)

/-- Something that a command needs is missing: its working directory, or at every path of
its executable the file or an interpreter. -/
inductive Misses (e : Environment) (c : Command) : Prop where
  | directory {d : Path} (hd : c.workingDir = some d) (habsent : ¬ e.Exists none d) :
      Misses e c
  | executable (habsent : ∀ p ∈ e.lookups c.executable, e.Exists c.workingDir p →
      ∃ i ∈ e.interpreters c.workingDir p, ¬ e.Exists c.workingDir i) : Misses e c

/-- What is relied on of the system that starts a command.  A command that misses something
does not start, and the error is that of a missing entry.  Errors of this kind are given for
nothing else. -/
structure Governs (e : Environment) (c : Command) (spawn : Except SystemError Unit) :
    Prop where
  refuses : e.Misses c → spawn = .error .noEntry
  blames : ∀ cause, spawn = .error cause → cause.isNotFound → e.Misses c

theorem Governs.isNotFound_iff (h : e.Governs c spawn) :
    (∃ cause, spawn = .error cause ∧ cause.isNotFound) ↔ e.Misses c := by
  constructor
  · rintro ⟨cause, hspawn, hcause⟩
    exact h.blames cause hspawn hcause
  · intro hmisses
    exact ⟨.noEntry, h.refuses hmisses, by decide⟩

/-- Where the directory and the interpreters are there, it is the executable that is
missing. -/
theorem Misses.not_exists (h : e.Misses c)
    (hdirectory : ∀ d, c.workingDir = some d → e.Exists none d)
    (hinterpreters : ∀ q ∈ e.lookups c.executable, ∀ i ∈ e.interpreters c.workingDir q,
      e.Exists c.workingDir i) :
    ∀ q ∈ e.lookups c.executable, ¬ e.Exists c.workingDir q := by
  intro q hq hexists
  cases h with
  | directory hd habsent => exact habsent (hdirectory _ hd)
  | executable habsent =>
      obtain ⟨i, hi, hmissing⟩ := habsent q hq hexists
      exact hmissing (hinterpreters q hq i hi)

end Environment

namespace LinterProgram

/-- A linter is said to be missing exactly if the system refuses to start it for want of
something.  On a system that refuses for nothing else, that is something its command needs.
It is indeed the executable, none of whose paths leads anywhere, if the directory to run in
is there and so are the interpreters of the executable. -/
theorem missingExecutable_iff_misses (around : Command → Surroundings) (l : LinterProgram)
    (r : LintRequest) (p : Path) :
    let c := Command.lint l.executable l.timeout r
    let answer := l.linter (.within around) r
    let begins := (deadline? (around c).start l.timeout).isSome
    (answer = .ends (.error (.missingExecutable p)) ↔ p = l.executable ∧ begins ∧
        ∃ cause, (around c).spawn = .error cause ∧ cause.isNotFound) ∧
      ∀ e : Environment, e.Governs c (around c).spawn →
        (answer = .ends (.error (.missingExecutable p)) ↔
          p = l.executable ∧ begins ∧ e.Misses c) ∧
        (answer = .ends (.error (.missingExecutable p)) →
          (∀ d, c.workingDir = some d → e.Exists none d) →
          (∀ q ∈ e.lookups p, ∀ i ∈ e.interpreters c.workingDir q,
            e.Exists c.workingDir i) →
          ∀ q ∈ e.lookups p, ¬ e.Exists c.workingDir q) := by
  intro c answer begins
  have hspawn : answer = .ends (.error (.missingExecutable p)) ↔ p = l.executable ∧ begins ∧
      ∃ cause, (around c).spawn = .error cause ∧ cause.isNotFound :=
    missingExecutable_iff_spawn
  refine ⟨hspawn, fun e hgoverns => ?_⟩
  rw [hgoverns.isNotFound_iff] at hspawn
  refine ⟨hspawn, fun hanswer hdirectory hinterpreters => ?_⟩
  obtain ⟨rfl, -, hmisses⟩ := hspawn.mp hanswer
  exact hmisses.not_exists hdirectory hinterpreters

/-- A machine with a shell, and with a linter that is a script for it. -/
def bench : Environment where
  Exists _ p := p ∈ [(⟨"/bin/sh"⟩ : Path), ⟨"/opt/lint"⟩]
  interpreters _ p := if p = ⟨"/opt/lint"⟩ then [⟨"/bin/sh"⟩] else []
  searchPath := [⟨"/bin"⟩, ⟨"/opt"⟩]

/-- A command that misses something on the bench, and is not started. -/
def refused : Surroundings where
  start := 0
  spawn := .error .noEntry
  hasPipes := true
  poll _ _ := .running
  lag _ := 0
  readers := []
  writer := .never

theorem governs_refused {c : Command} (h : bench.Misses c) : bench.Governs c refused.spawn where
  refuses _ := rfl
  blames _ _ _ := h

/-- A name that is in no directory of the search path is said to be missing, and rightly. -/
theorem missingExecutable_iff_misses_of_unknown_name :
    let l : LinterProgram := { executable := ⟨"shellcheck"⟩ }
    l.linter (.within fun _ => refused) ⟨⟨""⟩, ⟨"a.sh"⟩, none⟩ =
        .ends (.error (.missingExecutable ⟨"shellcheck"⟩)) ∧
      bench.lookups ⟨"shellcheck"⟩ = [⟨"/bin/shellcheck"⟩, ⟨"/opt/shellcheck"⟩] ∧
      ∀ q ∈ bench.lookups ⟨"shellcheck"⟩, ¬ bench.Exists none q := by
  intro l
  have hlookups : bench.lookups ⟨"shellcheck"⟩ =
      [⟨"/bin/shellcheck"⟩, ⟨"/opt/shellcheck"⟩] := by decide +kernel
  have habsent : ∀ q ∈ bench.lookups ⟨"shellcheck"⟩, ¬ bench.Exists none q := by
    rw [hlookups]
    simp [bench]
  have hmisses : bench.Misses (.lint l.executable l.timeout ⟨⟨""⟩, ⟨"a.sh"⟩, none⟩) :=
    .executable fun q hq hexists => absurd hexists (habsent q hq)
  obtain ⟨-, hunder⟩ := missingExecutable_iff_misses (fun _ => refused) l
    ⟨⟨""⟩, ⟨"a.sh"⟩, none⟩ ⟨"shellcheck"⟩
  obtain ⟨hiff, hright⟩ := hunder bench (governs_refused hmisses)
  have hmissing := hiff.mpr ⟨rfl, by decide +kernel, hmisses⟩
  refine ⟨hmissing, hlookups, hright hmissing ?_ ?_⟩
  · intro d hd
    cases hd
  · rw [hlookups]
    simp [bench]

/-- In a directory that does not exist, a linter that does is said to be missing. -/
theorem missingExecutable_not_only_missing :
    ¬ ∀ (e : Environment) (around : Command → Surroundings) (l : LinterProgram)
        (r : LintRequest) (p : Path),
      let c := Command.lint l.executable l.timeout r
      e.Governs c (around c).spawn →
        l.linter (.within around) r = .ends (.error (.missingExecutable p)) →
          ∀ q ∈ e.lookups p, ¬ e.Exists c.workingDir q := by
  intro hclaim
  have habsent : ¬ bench.Exists none ⟨"/gone"⟩ := by simp [bench]
  have hexists : bench.Exists (some ⟨"/gone"⟩) ⟨"/opt/lint"⟩ := by simp [bench]
  have hlookup : bench.lookups ⟨"/opt/lint"⟩ = [⟨"/opt/lint"⟩] := by decide +kernel
  have hmissing : LinterProgram.linter { executable := ⟨"/opt/lint"⟩ }
      (.within fun _ => refused) ⟨⟨"/gone"⟩, ⟨"a.sh"⟩, none⟩ =
        .ends (.error (.missingExecutable ⟨"/opt/lint"⟩)) := by decide +kernel
  have hnone := hclaim bench (fun _ => refused) _ _ _
    (governs_refused (.directory rfl habsent)) hmissing ⟨"/opt/lint"⟩
  rw [hlookup] at hnone
  exact hnone (List.mem_singleton_self _) hexists

end LinterProgram

end Lintmark
