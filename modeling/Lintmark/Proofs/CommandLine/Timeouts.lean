/-
Time limits that users can set, and which of them can be kept.  Every number of
seconds below `2 ^ 64` is taken, from a settings file and from an option.  A check
gives its reports exactly when the clock can hold its deadlines.
-/
import Lintmark.CommandLine
import Lintmark.Proofs.Check.Workers
import Lintmark.Proofs.Command.Deadline
import Lintmark.Proofs.CommandLine.ExitStatus
import Lintmark.Proofs.Settings.Decoding

namespace Lintmark

/-- The option takes every number of 64 bits. -/
theorem CommandLine.seconds?_toString {n : Nat} (h : n < 2 ^ 64) :
    seconds? (toString n) = some n := by
  have hdigits := Json.digits_toDigits n
  have hplus : ∀ cs, Nat.toDigits 10 n ≠ '+' :: cs := by
    simpa using hdigits.ne_cons (c := '+') (by decide) []
  have hall : (Nat.toDigits 10 n).all Char.isDigit := List.all_eq_true.mpr hdigits.2
  have hvalue : (Nat.toDigits 10 n).foldl
      (fun n c => n * 10 + (c.toNat - '0'.toNat)) 0 = n := by
    simp only [Nat.mul_comm _ 10]
    exact Nat.ofDigitChars_ten_toDigits
  have hpow : Nat.pow 2 64 = 2 ^ 64 := rfl
  rw [seconds?, Nat.toString_eq_ofList_toDigits, String.toList_ofList]
  split
  · rename_i heq
    exact absurd heq (hplus _)
  · rw [if_pos (by simp [hdigits.1, hall]), hvalue, if_pos (hpow ▸ h)]

namespace Settings

def limitSecs (s : Settings) : Nat :=
  if s.timeoutSecs = 0 then defaultTimeoutSecs else s.timeoutSecs

/-- The text of a settings file that sets nothing but the limit. -/
def limitText (secs : Nat) : String :=
  "\x7b\"timeoutSecs\":" ++ toString secs ++ "\x7d"

theorem toList_limitText (secs : Nat) :
    (limitText secs).toList =
      '{' :: '"' :: ("timeoutSecs".toList ++ '"' :: ':' ::
        (Nat.toDigits 10 secs ++ ['}'])) := by
  have hsecs : (toString secs).toList = Nat.toDigits 10 secs := by
    rw [Nat.toString_eq_ofList_toDigits, String.toList_ofList]
  change ("\x7b\"timeoutSecs\":" ++ toString secs ++ "\x7d").toList = _
  rw [String.toList_append, String.toList_append, hsecs, List.append_assoc]
  rfl

/-- A settings file takes every number of 64 bits, too. -/
theorem ofJson_limitText {n : Nat} (h : n < 2 ^ 64) :
    ofJson (limitText n) = .ok { timeoutSecs := n } := by
  have hvalue : Json.ValueText (.number (.natural n)) (Nat.toDigits 10 n) :=
    .number (.natural h)
  have hobject : Json.ObjectForm [("timeoutSecs", Nat.toDigits 10 n)] (limitText n).toList := by
    have hmember := Json.NamedForm.plain "timeoutSecs" (by decide) hvalue.form
    have hbraces := Json.ObjectForm.braces Json.Space.nil (.one hmember) Json.Space.nil
    rw [toList_limitText]
    simpa using hbraces
  have hknown : known [("timeoutSecs", Nat.toDigits 10 n)] =
      [(.timeoutSecs, Nat.toDigits 10 n)] := rfl
  rw [← parse_eq_ok_iff, parse_objectForm_iff hobject, hknown, SetBy.cons_iff]
  exact ⟨List.not_mem_nil, _, ⟨n, rfl⟩, hvalue, SetBy.nil_iff.mpr rfl⟩

end Settings

namespace CommandLine.Machine

variable {m : Machine} {around : Nat → Lintmark.Command → Surroundings} {s : Settings}
  {k : Nat} {path : Path} {paths files : List Path} {format : Format} {allFiles : Bool}

/-- The command that is run for a file with this text. -/
def lintCommand (m : Machine) (s : Settings) (path : Path) (text : String) :
    Lintmark.Command :=
  .lint s.resolvedExecutable s.timeout ((m.checker s).request path text)

/-- Every file is read to its end, with or without success. -/
def EachRead (m : Machine) (paths : List Path) : Prop :=
  ∀ k path, paths[k]? = some path → (m.read k path).Ends

/-- A property of the commands that are run for files, each with the number of its worker.
None is run for a file that cannot be read. -/
def EachRun (m : Machine) (s : Settings) (paths : List Path)
    (holds : Nat → Lintmark.Command → Prop) : Prop :=
  ∀ k path, paths[k]? = some path → ∀ text, m.read k path = .ends (.ok text) →
    holds k (m.lintCommand s path text)

theorem check_ends_iff (hread : (m.read k path).Ends) :
    ((m.checker s).check k path).Ends ↔
      ∀ text, m.read k path = .ends (.ok text) →
        (m.run k (m.lintCommand s path text)).Ends := by
  obtain ⟨result, hresult⟩ := hread
  cases result with
  | error cause =>
      have hcheck := FileChecker.check_of_unreadable (c := m.checker s) hresult
      refine iff_of_true ⟨_, hcheck⟩ ?_
      intro text htext
      cases hresult.symm.trans htext
  | ok text =>
      have hcheck := FileChecker.check_of_text (c := m.checker s) hresult
      have hrun : ((m.checker s).check k path).Ends ↔
          (m.run k (m.lintCommand s path text)).Ends := by
        rw [hcheck]
        exact Attempt.ends_map_iff.trans Attempt.ends_map_iff
      rw [hrun]
      constructor
      · intro h text' htext
        cases hresult.symm.trans htext
        exact h
      · intro h
        exact h text hresult

theorem exists_checkAll_iff (jobs : Nat) (hread : m.EachRead paths) :
    (∃ reports, (m.checker s).checkAll jobs paths = .ends (some reports)) ↔
      m.EachRun s paths fun k c => (m.run k c).Ends := by
  rw [FileChecker.exists_checkAll_iff, FileChecker.forall_checkEach_iff]
  exact forall₃_congr fun k path hpath => check_ends_iff (hread k path hpath)

/-- Runs that are not waited for in vain all come to a result exactly when the clock can
hold all their deadlines. -/
theorem eachRun_ends_iff (hrun : ∀ k, m.run k = .within (around k))
    (hends : m.EachRun s paths fun k c => (c.run (around k c)).ending ≠ .stuck) :
    (m.EachRun s paths fun k c => (m.run k c).Ends) ↔
      m.EachRun s paths fun k c =>
        (around k c).start / 1000000000 + s.limitSecs < 2 ^ 63 := by
  refine forall₃_congr fun k path hpath => forall₂_congr fun text htext => ?_
  have hended := hends k path hpath text htext
  have htimeout : (m.lintCommand s path text).timeout = .ofSecs s.limitSecs := rfl
  have hdeadline := Command.within_ends_iff hended
  rw [htimeout, deadline?_ofSecs_isSome_iff, ← hrun] at hdeadline
  exact hdeadline

/-- A worker whose file is read to its end, and whose run is not waited for in vain, ends or
breaks down. -/
theorem never_notMem_workers (hread : m.EachRead paths)
    (hrun : ∀ k, m.run k = .within (around k))
    (hends : m.EachRun s paths fun k c => (c.run (around k c)).ending ≠ .stuck) :
    .never ∉ (m.checker s).checkEach paths.zipIdx := by
  rw [FileChecker.mem_checkEach_zipIdx]
  rintro ⟨k, path, hpath, hnever⟩
  obtain ⟨result, hresult⟩ := hread k path hpath
  cases result with
  | error cause =>
      cases (FileChecker.check_of_unreadable (c := m.checker s) hresult).symm.trans hnever
  | ok text =>
      rw [FileChecker.check_of_text (c := m.checker s) hresult,
        Attempt.map_eq_never_iff] at hnever
      have hstuck := Attempt.map_eq_never_iff.mp hnever
      rw [hrun] at hstuck
      exact hends k path hpath text hresult (Ending.attempt_eq_never_iff.mp hstuck)

/-- A limit may be any number of seconds below `2 ^ 64`, in a settings file and as an
option.  A check under it has a report on every file exactly when the clock can hold the
deadlines of all runs: their limit, and the seconds that have passed when they begin, go
into 63 bits.  One run of which this is not true takes all reports with it, and the check
prints none and does not succeed. -/
theorem limit_kept_iff (secs : Nat) (hsecs : secs < 2 ^ 64) :
    let limit := if secs = 0 then defaultTimeoutSecs else secs
    Settings.ofJson (Settings.limitText secs) = .ok { timeoutSecs := secs } ∧
    seconds? (toString secs) = some secs ∧
    ∀ (m : Machine) (around : Nat → Lintmark.Command → Surroundings) (s : Settings)
      (files : List Path) (format : Format) (allFiles : Bool),
      (∀ k, m.run k = .within (around k)) → s.timeoutSecs = secs → s.enabled = true →
      m.executableProblem? s = none → m.EachRead (kept files allFiles) →
      (m.EachRun s (kept files allFiles) fun k c => (c.run (around k c)).ending ≠ .stuck) →
      let fits := m.EachRun s (kept files allFiles) fun k c =>
        (around k c).start / 1000000000 + limit < 2 ^ 63
      let reports := (m.checker s).checkAll m.jobs (kept files allFiles)
      (fits → reports.map (Option.map (List.map FileReport.path)) =
        .ends (some (kept files allFiles))) ∧
      (¬ fits → (∀ all, reports ≠ .ends (some all)) ∧
        ∃ outcome, Outcome.of? (m.check s files format allFiles) = some outcome ∧
          outcome.stdout = "" ∧ outcome.exit ≠ success) := by
  refine ⟨Settings.ofJson_limitText hsecs, seconds?_toString hsecs, ?_⟩
  rintro m around s files format allFiles hrun rfl henabled hproblem hread hends fits reports
  have hreports : (∃ all, reports = .ends (some all)) ↔ fits :=
    (exists_checkAll_iff m.jobs hread).trans (eachRun_ends_iff hrun hends)
  constructor
  · intro hfits
    obtain ⟨all, hall⟩ := hreports.mpr hfits
    rw [hall, Attempt.map_ends, Option.map_some, FileChecker.map_path_of_checkAll hall]
  · intro hfits
    have hnone : ∀ all, reports ≠ .ends (some all) := fun all hall =>
      hfits (hreports.mp ⟨all, hall⟩)
    have hnever : reports ≠ .never :=
      FileChecker.checkAll_ne_never m.jobs (never_notMem_workers hread hrun hends)
    refine ⟨hnone, ?_⟩
    rw [check_of_enabled henabled hproblem]
    change ∃ outcome, Outcome.of? (reports.map _) = some outcome ∧ _
    cases hshown : reports with
    | never => exact absurd hshown hnever
    | breaks => exact ⟨_, rfl, rfl, by decide⟩
    | ends all? =>
        cases all? with
        | some all => exact absurd hshown (hnone all)
        | none => exact ⟨_, rfl, rfl, Nat.one_ne_zero⟩

/-- A linter that is done at once and finds nothing. -/
def promptly (start : Nat) : Surroundings where
  start := start
  spawn := .ok ()
  hasPipes := true
  poll := fun _ _ => .ended (some 0)
  lag := fun _ => 0
  readers := [
    ⟨.stdout, .reports start (.ok [91, 93])⟩,
    ⟨.stderr, .reports start (.ok [])⟩]
  writer := .reports start (.ok ())

/-- The workshop with such a linter, a thousand seconds after its clock has started. -/
def promptWorkshop : Machine :=
  { workshop with run := fun _ => .within fun _ => promptly 1000000000000 }

theorem eachRun_promptWorkshop (s : Settings) (paths : List Path) :
    promptWorkshop.EachRun s paths fun _ c =>
      (c.run (promptly 1000000000000)).ending ≠ .stuck :=
  fun _ _ _ _ _ => Command.run_ne_stuck nofun

theorem eachRead_promptWorkshop : promptWorkshop.EachRead [⟨"run.sh"⟩] := by
  intro k path hpath
  obtain rfl := List.mem_singleton.mp (List.mem_of_getElem? hpath)
  exact ⟨_, rfl⟩

/-- The last limit whose deadline the clock of the workshop can hold, and the next one. -/
theorem limit_kept_iff_promptWorkshop :
    (∃ report, (promptWorkshop.checker { timeoutSecs := 9223372036854774807 }).checkAll 2
      [⟨"run.sh"⟩] = .ends (some [report])) ∧
    ∃ outcome, Outcome.of? (promptWorkshop.check { timeoutSecs := 9223372036854774808 }
        [⟨"run.sh"⟩] .human false) = some outcome ∧
      outcome.stdout = "" ∧ outcome.exit ≠ success := by
  obtain ⟨-, -, hlast⟩ := limit_kept_iff 9223372036854774807 (by decide)
  obtain ⟨-, -, hnext⟩ := limit_kept_iff 9223372036854774808 (by decide)
  have hrun (k : Nat) : promptWorkshop.run k = .within fun _ => promptly 1000000000000 := rfl
  have hkept : kept [⟨"run.sh"⟩] false = [⟨"run.sh"⟩] := by decide +kernel
  have hread : promptWorkshop.EachRead (kept [⟨"run.sh"⟩] false) :=
    hkept ▸ eachRead_promptWorkshop
  obtain ⟨hfits, -⟩ := hlast promptWorkshop _ { timeoutSecs := 9223372036854774807 }
    [⟨"run.sh"⟩] .human false hrun rfl rfl rfl hread (eachRun_promptWorkshop _ _)
  obtain ⟨-, hlost⟩ := hnext promptWorkshop _ { timeoutSecs := 9223372036854774808 }
    [⟨"run.sh"⟩] .human false hrun rfl rfl rfl hread (eachRun_promptWorkshop _ _)
  rw [hkept] at hfits hlost
  have hlimit : 1000000000000 / 1000000000 + 9223372036854774807 < 2 ^ 63 := by decide
  constructor
  · obtain ⟨reports?, hreports, hpaths⟩ :=
      Attempt.map_eq_ends_iff.mp (hfits fun _ _ _ _ _ => hlimit)
    obtain ⟨reports, rfl, hsingle⟩ := Option.map_eq_some_iff.mp hpaths
    obtain ⟨report, rfl, -⟩ := List.map_eq_singleton_iff.mp hsingle
    exact ⟨report, hreports⟩
  · apply And.right
    apply hlost
    intro hfits
    exact absurd (hfits 0 ⟨"run.sh"⟩ rfl "echo\n" rfl) (by decide)

/-- With the largest number of seconds that a settings file may hold, there is no deadline
and no report. -/
theorem limit_not_kept :
    ¬ ∀ (text : String) (s : Settings), Settings.ofJson text = .ok s →
      ∀ (m : Machine) (around : Nat → Lintmark.Command → Surroundings) (paths : List Path),
        (∀ k, m.run k = .within (around k)) → m.EachRead paths →
        (m.EachRun s paths fun k c => (c.run (around k c)).ending ≠ .stuck) →
        (m.EachRun s paths fun k c => (deadline? (around k c).start c.timeout).isSome) ∧
          ∃ reports, (m.checker s).checkAll m.jobs paths = .ends (some reports) := by
  intro hclaim
  have htext := Settings.ofJson_limitText (n := 18446744073709551615) (by decide)
  have hends := eachRun_promptWorkshop { timeoutSecs := 18446744073709551615 }
    [⟨"run.sh"⟩]
  have hrun (k : Nat) : promptWorkshop.run k = .within fun _ => promptly 1000000000000 := rfl
  obtain ⟨-, hreports⟩ := hclaim _ _ htext promptWorkshop _ [⟨"run.sh"⟩] hrun
    eachRead_promptWorkshop hends
  rw [exists_checkAll_iff _ eachRead_promptWorkshop, eachRun_ends_iff hrun hends] at hreports
  exact absurd (hreports 0 ⟨"run.sh"⟩ rfl "echo\n" rfl) (by decide)

end CommandLine.Machine

end Lintmark
