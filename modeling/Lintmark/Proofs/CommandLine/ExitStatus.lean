/-
The exit code of a check.  It tells success exactly if every file passes, and what is
written on the error output agrees with it.
-/
import Lintmark.CommandLine
import Lintmark.Proofs.Check.Files

namespace Lintmark

def Settings.withWholeLine (s : Settings) (wholeLine : Bool) : Settings :=
  { s with wholeLine }

theorem LinterProgram.linter_eq_ok_iff {l : LinterProgram} {run : Runner} {r : LintRequest}
    {output : ToolOutput} :
    l.linter run r = .ends (.ok output) ↔
      ∃ output', run (.lint l.executable l.timeout r) = .ends (.ok output') ∧
        output'.toTool = output := by
  rw [LinterProgram.linter, Attempt.map_eq_ends_iff]
  constructor
  · rintro ⟨result, hrun, hresult⟩
    cases result with
    | ok output' =>
        cases hresult
        exact ⟨output', hrun, rfl⟩
    | error e => cases hresult
  · rintro ⟨output', hrun, rfl⟩
    exact ⟨_, hrun, rfl⟩

namespace CommandLine

namespace Machine

/-- A worker has the linter that settings name run on the text of its file, in time and to
its end, and the answer clears the file. -/
def Passes (m : Machine) (s : Settings) (worker : Nat) (path : Path) : Prop :=
  ∃ text output issues,
    m.run worker
        (.lint s.resolvedExecutable s.timeout ((m.checker s).request path text)) =
        .ends (.ok output) ∧
      (m.checker s).Clears worker path text output.toTool issues

variable {m : Machine} {s : Settings} {worker : Nat} {path : Path} {files : List Path}
  {format : Format} {allFiles : Bool}

theorem passes_checker_iff : (m.checker s).Passes worker path ↔ m.Passes s worker path := by
  constructor
  · rintro ⟨text, output, issues, hran, hclears⟩
    obtain ⟨output', hrun, rfl⟩ := LinterProgram.linter_eq_ok_iff.mp hran
    exact ⟨text, output', issues, hrun, hclears⟩
  · rintro ⟨text, output, issues, hrun, hclears⟩
    have hran : (m.checker s).linter worker ((m.checker s).request path text) =
        .ends (.ok output.toTool) :=
      LinterProgram.linter_eq_ok_iff.mpr ⟨output, hrun, rfl⟩
    exact ⟨text, output.toTool, issues, hran, hclears⟩

theorem check_of_disabled (h : s.enabled = false) :
    m.check s files format allFiles =
      .ends { exit := success, stderr := notificationLine none disabled ++ "\n" } := by
  simp only [check, h, Bool.not_false, if_true]

theorem check_of_problem {problem : Notification} (h : s.enabled = true)
    (hproblem : m.executableProblem? s = some problem) :
    m.check s files format allFiles =
      .ends { exit := failure, stderr := notificationLine none problem ++ "\n" } := by
  simp only [check, h, hproblem, Bool.not_true, Bool.false_eq_true, if_false]

end Machine

def Outcome.shown (format : Format) : Option (List FileReport) → Outcome
  | some reports => .ofReports format reports
  | none => .failed "check worker panicked" []

theorem Machine.check_of_enabled {m : Machine} {s : Settings} {files : List Path}
    {format : Format} {allFiles : Bool} (h : s.enabled = true)
    (hproblem : m.executableProblem? s = none) :
    m.check s files format allFiles =
      ((m.checker s).checkAll m.jobs (kept files allFiles)).map (.shown format) := by
  simp only [check, h, hproblem, Bool.not_true, Bool.false_eq_true, if_false]
  rfl

/-- The exit code and the error output. -/
def Outcome.verdict (outcome : Outcome) : Nat × String :=
  (outcome.exit, outcome.stderr)

/-- What the verdicts on files come to. -/
def Outcome.verdictOf : Option (List (Option String × Bool)) → Nat × String
  | some verdicts =>
    (if verdicts.any (·.2) then failure else success, unlines (verdicts.filterMap (·.1)))
  | none => (failure, errorText "check worker panicked" [])

/-- Exit code and error output follow from the verdicts on files, whatever the format. -/
theorem Outcome.verdict_shown (format : Format) (reports? : Option (List FileReport)) :
    (Outcome.shown format reports?).verdict =
      verdictOf (reports?.map (List.map FileReport.verdict)) := by
  cases reports? with
  | none => rfl
  | some reports =>
      simp only [shown, ofReports, verdict, verdictOf, Option.map_some, List.any_map,
        List.filterMap_map]
      rfl

theorem Outcome.ofReports_exit_iff {format : Format} {reports : List FileReport} :
    (Outcome.ofReports format reports).exit = success ↔
      ∀ r ∈ reports, r.failed = false := by
  rw [ofReports]
  simp only [← Bool.not_eq_true]
  by_cases hfailed : reports.any FileReport.failed
  · obtain ⟨r, hr, hrfailed⟩ := List.any_eq_true.mp hfailed
    rw [if_pos hfailed]
    refine ⟨fun h => ?_, fun h => absurd hrfailed (h r hr)⟩
    cases h
  · rw [if_neg hfailed]
    refine ⟨fun _ r hr hrfailed => ?_, fun _ => rfl⟩
    exact hfailed (List.any_eq_true.mpr ⟨r, hr, hrfailed⟩)

theorem Outcome.ofReports_exit_cases (format : Format) (reports : List FileReport) :
    (Outcome.ofReports format reports).exit = success ∨
      (Outcome.ofReports format reports).exit = failure := by
  by_cases hfailed : reports.any FileReport.failed
  · exact Or.inr (if_pos hfailed)
  · exact Or.inl (if_neg hfailed)

theorem notificationsText_of_quiet {reports : List FileReport}
    (h : ∀ r ∈ reports, r.notification = none) : notificationsText reports = "" := by
  have hnone : reports.filterMap FileReport.notice = [] := by
    apply List.filterMap_eq_nil_iff.mpr
    intro r hr
    rw [FileReport.notice, h r hr]
    rfl
  change unlines (reports.filterMap FileReport.notice) = ""
  rw [hnone]
  rfl

/-- An outcome that tells success comes from a check that has ended. -/
theorem Outcome.of?_success_iff {result : Attempt Outcome} :
    (∃ outcome, Outcome.of? result = some outcome ∧ outcome.exit = success) ↔
      ∃ outcome, result = .ends outcome ∧ outcome.exit = success := by
  cases result <;> simp [of?, breakdown, success]

namespace Machine

variable {m : Machine} {s : Settings} {files : List Path} {format : Format}
  {allFiles : Bool}

/-- What comes of the workers of a check, one for each kept file. -/
def workers (m : Machine) (s : Settings) (files : List Path) (allFiles : Bool) :
    List (Attempt FileReport) :=
  (m.checker s).checkEach (kept files allFiles).zipIdx

/-- With everything switched on, a check succeeds exactly if the executable is in order
and all kept files pass. -/
theorem check_exit_iff (h : s.enabled = true) :
    (∃ outcome, m.check s files format allFiles = .ends outcome ∧
        outcome.exit = success) ↔
      m.executableProblem? s = none ∧
        ∀ k path, (kept files allFiles)[k]? = some path → m.Passes s k path := by
  simp only [← passes_checker_iff]
  cases hproblem : m.executableProblem? s with
  | some problem =>
      rw [check_of_problem h hproblem]
      simp [failure, success]
  | none =>
      rw [check_of_enabled h hproblem, ← FileChecker.all_pass_iff m.jobs]
      simp only [Attempt.map_eq_ends_iff, true_and]
      constructor
      · rintro ⟨_, ⟨reports?, hreports, rfl⟩, hexit⟩
        cases reports? with
        | none => cases hexit
        | some reports => exact ⟨reports, hreports, Outcome.ofReports_exit_iff.mp hexit⟩
      · rintro ⟨reports, hreports, hpass⟩
        exact ⟨_, ⟨some reports, hreports, rfl⟩, Outcome.ofReports_exit_iff.mpr hpass⟩

/-- A check without broken workers that ends tells success or failure. -/
theorem check_exit_cases {outcome : Outcome}
    (hunbroken : .breaks ∉ m.workers s files allFiles)
    (hshown : Outcome.of? (m.check s files format allFiles) = some outcome) :
    outcome.exit = success ∨ outcome.exit = failure := by
  cases h : s.enabled with
  | false =>
      rw [check_of_disabled h] at hshown
      cases hshown
      exact Or.inl rfl
  | true =>
      cases hproblem : m.executableProblem? s with
      | some problem =>
          rw [check_of_problem h hproblem] at hshown
          cases hshown
          exact Or.inr rfl
      | none =>
          rw [check_of_enabled h hproblem] at hshown
          rcases FileChecker.checkAll_of_unbroken m.jobs hunbroken with
            hnever | ⟨reports, hreports⟩
          · rw [hnever] at hshown
            cases hshown
          · rw [hreports] at hshown
            cases hshown
            exact Outcome.ofReports_exit_cases format reports

theorem check_stderr_of_success {outcome : Outcome} (h : s.enabled = true)
    (hcheck : m.check s files format allFiles = .ends outcome)
    (hexit : outcome.exit = success) : outcome.stderr = "" := by
  obtain ⟨hproblem, hpass⟩ := (check_exit_iff h).mp ⟨outcome, hcheck, hexit⟩
  simp only [← passes_checker_iff] at hpass
  obtain ⟨reports, hreports, -⟩ := (FileChecker.all_pass_iff m.jobs _).mpr hpass
  rw [check_of_enabled h hproblem, hreports] at hcheck
  cases hcheck
  exact notificationsText_of_quiet (FileChecker.notification_of_all_pass hreports hpass)

/-- A check whose workers all end has an outcome. -/
theorem check_ends (format : Format) (hends : ∀ w ∈ m.workers s files allFiles, w.Ends) :
    (m.check s files format allFiles).Ends := by
  cases h : s.enabled with
  | false => exact ⟨_, check_of_disabled h⟩
  | true =>
      cases hproblem : m.executableProblem? s with
      | some problem => exact ⟨_, check_of_problem h hproblem⟩
      | none =>
          obtain ⟨reports, hreports⟩ := (FileChecker.exists_checkAll_iff m.jobs).mpr hends
          rw [check_of_enabled h hproblem, hreports]
          exact ⟨_, rfl⟩

/-- Neither the format nor whole lines make a difference to the exit code and to the error
output. -/
theorem check_withWholeLine (format' : Format) (wholeLine : Bool) :
    (m.check (s.withWholeLine wholeLine) files format' allFiles).map Outcome.verdict =
      (m.check s files format allFiles).map Outcome.verdict := by
  have henabled : (s.withWholeLine wholeLine).enabled = s.enabled := rfl
  have hexecutable : m.executableProblem? (s.withWholeLine wholeLine) =
      m.executableProblem? s := rfl
  have hchecker : m.checker (s.withWholeLine wholeLine) =
      (m.checker s).withWholeLine wholeLine := rfl
  have hverdict (format : Format) : Outcome.verdict ∘ Outcome.shown format =
      Outcome.verdictOf ∘ Option.map (List.map FileReport.verdict) :=
    funext (Outcome.verdict_shown format)
  cases h : s.enabled with
  | false => rw [check_of_disabled h, check_of_disabled (henabled.trans h)]
  | true =>
      cases hproblem : m.executableProblem? s with
      | some problem =>
          rw [check_of_problem h hproblem,
            check_of_problem (henabled.trans h) (hexecutable.trans hproblem)]
      | none =>
          rw [check_of_enabled h hproblem,
            check_of_enabled (henabled.trans h) (hexecutable.trans hproblem), hchecker,
            Attempt.map_map, Attempt.map_map, hverdict, hverdict, ← Attempt.map_map,
            ← Attempt.map_map, FileChecker.verdicts_withWholeLine]

/-- The exit code of a check is sound, whatever each worker reads and whatever comes of the
run of its linter.  A check that is switched off succeeds and does nothing.  Any other one
succeeds exactly if the executable is in order and every kept file passes, and then it has
nothing to say on the error output.  It has an exit code if all its workers end, and unless
one breaks down that tells success or failure. -/
theorem check_exit_sound (m : Machine) (s : Settings) (files : List Path)
    (format : Format) (allFiles : Bool) :
    let result := m.check s files format allFiles
    let workers := m.workers s files allFiles
    (s.enabled = false →
        result =
          .ends { exit := success, stderr := notificationLine none disabled ++ "\n" }) ∧
      (s.enabled = true →
        ((∃ outcome, Outcome.of? result = some outcome ∧ outcome.exit = success) ↔
            m.executableProblem? s = none ∧
              ∀ k path, (kept files allFiles)[k]? = some path → m.Passes s k path) ∧
          ((∀ w ∈ workers, w.Ends) → ∃ outcome, Outcome.of? result = some outcome) ∧
          ∀ outcome, Outcome.of? result = some outcome →
            (.breaks ∉ workers → outcome.exit = success ∨ outcome.exit = failure) ∧
              (outcome.exit = success → outcome.stderr = "")) ∧
      ∀ format' wholeLine,
        (m.check (s.withWholeLine wholeLine) files format' allFiles).map Outcome.verdict =
          result.map Outcome.verdict := by
  intro result workers
  refine ⟨check_of_disabled, fun henabled => ⟨?_, ?_, ?_⟩, check_withWholeLine⟩
  · rw [Outcome.of?_success_iff]
    exact check_exit_iff henabled
  · intro hends
    obtain ⟨outcome, hresult⟩ := check_ends format hends
    exact ⟨outcome, congrArg Outcome.of? hresult⟩
  · intro outcome hshown
    refine ⟨fun hunbroken => check_exit_cases hunbroken hshown, ?_⟩
    intro hexit
    obtain ⟨outcome', hresult, hexit'⟩ :=
      Outcome.of?_success_iff.mp ⟨outcome, hshown, hexit⟩
    rw [hresult] at hshown
    cases hshown
    exact check_stderr_of_success henabled hresult hexit'

/-- A script, and a linter that finds an error on its first line. -/
def workshop : Machine where
  files := ⟨[(["work".toList], .directory),
    (["work".toList, "run.sh".toList], .file 0o644 [101, 99, 104, 111, 10])]⟩
  dir := ["work".toList]
  searchPath := none
  run := fun _ _ => .ends (.ok {
    stdout := "[\x7b\"line\":1,\"level\":\"error\"\x7d]"
    stderr := "\n"
    exit := some 1 })
  jobs := 2

theorem workshop_decodes :
    parseIssues "[\x7b\"line\":1,\"level\":\"error\"\x7d]" =
      .ok [{ line := 1, level := "error" }] := by
  decide +kernel

theorem passes_workshop (worker : Nat) :
    workshop.Passes { demote := true } worker ⟨"run.sh"⟩ := by
  refine ⟨"echo\n", _, _, rfl, rfl, ⟨by decide, Or.inr rfl, workshop_decodes⟩, ?_⟩
  intro hdemote
  cases hdemote

theorem not_passes_workshop (worker : Nat) : ¬ workshop.Passes {} worker ⟨"run.sh"⟩ := by
  rintro ⟨text, output, issues, hrun, hread, hyields, hmild⟩
  cases hrun
  have hissues : issues = [_] :=
    Except.ok.inj (hyields.decodes.symm.trans workshop_decodes)
  rw [hissues] at hmild
  exact hmild rfl _ List.mem_cons_self ⟨by decide, by decide, Nat.succ_pos _⟩ rfl

/-- The workshop on a day on which the first run of the linter takes too long. -/
def slowStart : Machine :=
  { workshop with
    run := fun worker c =>
      if worker = 0 then .ends (.error (.timeout c.line c.timeout)) else workshop.run worker c }

theorem not_passes_slowStart : ¬ slowStart.Passes { demote := true } 0 ⟨"run.sh"⟩ := by
  rintro ⟨text, output, issues, hrun, -⟩
  cases hrun

theorem eq_of_kept {files : List Path} {k : Nat} {path file : Path}
    (hfiles : ∀ p ∈ files, p = file) (h : (kept files allFiles)[k]? = some path) :
    path = file :=
  hfiles path (List.mem_of_mem_filter (List.mem_of_getElem? h))

/-- If all files are the same one, it is enough that everybody ends with that one. -/
theorem workers_end (file : Path) (hfiles : ∀ p ∈ files, p = file)
    (hends : ∀ k, ((m.checker s).check k file).Ends) :
    ∀ w ∈ m.workers s files allFiles, w.Ends := by
  refine FileChecker.forall_checkEach_iff.mpr fun k path hpath => ?_
  obtain rfl := eq_of_kept hfiles hpath
  exact hends k

theorem slowStart_ends (s : Settings) (worker : Nat) :
    ((slowStart.checker s).check worker ⟨"run.sh"⟩).Ends := by
  cases worker with
  | zero => exact ⟨_, rfl⟩
  | succ worker => exact ⟨_, rfl⟩

/-- An error makes the check fail, unless errors are shown as warnings.  Of two runs on the
same file one is enough to make it fail. -/
theorem check_exit_sound_workshop :
    let demoting : Settings := { demote := true }
    (∃ outcome, Outcome.of? (workshop.check {} [⟨"run.sh"⟩] .human false) = some outcome ∧
        outcome.exit = failure) ∧
      (∃ outcome,
        Outcome.of? (workshop.check demoting [⟨"run.sh"⟩, ⟨"run.sh"⟩] .human false) =
            some outcome ∧
          outcome.exit = success ∧ outcome.stderr = "") ∧
      ∃ outcome,
        Outcome.of? (slowStart.check demoting [⟨"run.sh"⟩, ⟨"run.sh"⟩] .human false) =
            some outcome ∧
          outcome.exit = failure := by
  intro demoting
  have hunbroken {workers : List (Attempt FileReport)} (h : ∀ w ∈ workers, w.Ends) :
      .breaks ∉ workers := by
    intro hbreaks
    exact (Attempt.ends_iff.mp (h _ hbreaks)).1 rfl
  refine ⟨?_, ?_, ?_⟩
  · obtain ⟨-, hsound, -⟩ := check_exit_sound workshop {} [⟨"run.sh"⟩] .human false
    obtain ⟨hiff, hends, hshown⟩ := hsound rfl
    have hall : ∀ w ∈ workshop.workers {} [⟨"run.sh"⟩] false, w.Ends :=
      workers_end ⟨"run.sh"⟩ (by simp) fun _ => ⟨_, rfl⟩
    obtain ⟨outcome, houtcome⟩ := hends hall
    refine ⟨outcome, houtcome, ((hshown outcome houtcome).1 (hunbroken hall)).resolve_left ?_⟩
    intro hexit
    have hfirst : (kept [⟨"run.sh"⟩] false)[0]? = some ⟨"run.sh"⟩ := by decide +kernel
    exact not_passes_workshop 0 ((hiff.mp ⟨outcome, houtcome, hexit⟩).2 0 _ hfirst)
  · obtain ⟨-, hsound, -⟩ :=
      check_exit_sound workshop demoting [⟨"run.sh"⟩, ⟨"run.sh"⟩] .human false
    obtain ⟨hiff, -, hshown⟩ := hsound rfl
    have hpass : ∀ k path, (kept [⟨"run.sh"⟩, ⟨"run.sh"⟩] false)[k]? = some path →
        workshop.Passes demoting k path := by
      intro k path hpath
      have hfiles : ∀ p ∈ [(⟨"run.sh"⟩ : Path), ⟨"run.sh"⟩], p = ⟨"run.sh"⟩ := by simp
      obtain rfl := eq_of_kept hfiles hpath
      exact passes_workshop k
    have hproblem : workshop.executableProblem? { demote := true } = none := rfl
    obtain ⟨outcome, houtcome, hexit⟩ := hiff.mpr ⟨hproblem, hpass⟩
    exact ⟨outcome, houtcome, hexit, (hshown outcome houtcome).2 hexit⟩
  · obtain ⟨-, hsound, -⟩ :=
      check_exit_sound slowStart demoting [⟨"run.sh"⟩, ⟨"run.sh"⟩] .human false
    obtain ⟨hiff, hends, hshown⟩ := hsound rfl
    have hall : ∀ w ∈ slowStart.workers demoting [⟨"run.sh"⟩, ⟨"run.sh"⟩] false, w.Ends :=
      workers_end ⟨"run.sh"⟩ (by simp) (slowStart_ends demoting)
    obtain ⟨outcome, houtcome⟩ := hends hall
    refine ⟨outcome, houtcome, ((hshown outcome houtcome).1 (hunbroken hall)).resolve_left ?_⟩
    intro hexit
    have hfirst : (kept [⟨"run.sh"⟩, ⟨"run.sh"⟩] false)[0]? = some ⟨"run.sh"⟩ := by
      decide +kernel
    exact not_passes_slowStart ((hiff.mp ⟨outcome, houtcome, hexit⟩).2 0 _ hfirst)

end Machine

end CommandLine

end Lintmark
