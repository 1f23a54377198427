/-
What comes of a check.  Annotations are shown exactly when the linter went
through with issues that can be read.  Every other answer leaves none of them,
and a message in their place.
-/
import Mathlib.Data.List.TakeWhile
import Lintmark.Check

namespace Lintmark

namespace Text

theorem trimEnd_eq_nil_iff {cs : List Char} :
    trimEnd cs = [] ↔ ∀ c ∈ cs, isBlank c := by
  rw [trimEnd, List.reverse_eq_nil_iff, List.dropWhile_eq_nil_iff]
  simp only [List.mem_reverse]

theorem trimBoth_eq_nil_iff {cs : List Char} :
    trimBoth cs = [] ↔ ∀ c ∈ cs, isBlank c := by
  rw [trimBoth, trimEnd_eq_nil_iff]
  constructor
  · intro h c hc
    rw [← List.takeWhile_append_dropWhile (p := isBlank) (l := cs)] at hc
    rcases List.mem_append.mp hc with hfront | hrest
    · exact List.mem_takeWhile_imp hfront
    · exact h c hrest
  · intro h c hc
    exact h c ((List.dropWhile_sublist isBlank).subset hc)

/-- Trimming leaves nothing exactly of a blank text. -/
theorem trim_eq_empty_iff {s : String} : trim s = "" ↔ allBlank s := by
  rw [trim, String.ofList_eq_empty_iff, trimBoth_eq_nil_iff, allBlank,
    List.all_eq_true]

end Text

/-- The run went through with these issues: its error output is blank, its exit
code an expected one, and its output decodes to the issues. -/
structure ToolOutput.Yields (output : ToolOutput) (issues : List Issue) :
    Prop where
  quiet : Text.allBlank output.stderr
  exits : output.exit = some 0 ∨ output.exit = some 1
  decodes : parseIssues output.stdout = .ok issues

/-- What the user is owed for an answer without issues.  The first flaw counts:
a run that did not come about, then words on the error output, then the exit
code, and last the output. -/
inductive Owed : Except InvocationError ToolOutput → Notification → Prop where
  | missing {path : Path} {n : Notification} (hkind : n.kind = .warning) :
      Owed (.error (.missingExecutable path)) n
  | notRun {e : InvocationError} {n : Notification}
      (he : ∀ path, e ≠ .missingExecutable path) (hkind : n.kind = .error) :
      Owed (.error e) n
  | noisy {output : ToolOutput} (hstderr : ¬ Text.allBlank output.stderr) :
      Owed (.ok output) ⟨.warning, Text.trim output.stderr⟩
  | exit {output : ToolOutput} {n : Notification}
      (hstderr : Text.allBlank output.stderr)
      (hexit : ¬ (output.exit = some 0 ∨ output.exit = some 1))
      (hkind : n.kind = .error) :
      Owed (.ok output) n
  | unreadable {output : ToolOutput} {e : OutputError}
      (hstderr : Text.allBlank output.stderr)
      (hexit : output.exit = some 0 ∨ output.exit = some 1)
      (he : parseIssues output.stdout = .error e) :
      Owed (.ok output) ⟨.error, Text.trim output.stdout⟩

variable {output : ToolOutput} {answer : Except InvocationError ToolOutput}
  {issues : List Issue} {n : Notification}

theorem ToolOutput.Yields.unique {issues' : List Issue} (h : output.Yields issues)
    (h' : output.Yields issues') : issues = issues' :=
  Except.ok.inj (h.decodes.symm.trans h'.decodes)

theorem Owed.kind_ne_info (h : Owed answer n) : n.kind ≠ .info := by
  intro hinfo
  cases h with
  | missing hkind => cases hkind.symm.trans hinfo
  | notRun _ hkind => cases hkind.symm.trans hinfo
  | noisy => cases hinfo
  | exit _ _ hkind => cases hkind.symm.trans hinfo
  | unreadable => cases hinfo

/-- Nothing is owed for a run that went through. -/
theorem Owed.not_yields (h : Owed (.ok output) n) : ¬ output.Yields issues := by
  intro hyields
  cases h with
  | noisy hstderr => exact hstderr hyields.quiet
  | exit _ hexit _ => exact hexit hyields.exits
  | unreadable _ _ he =>
      rw [hyields.decodes] at he
      cases he

theorem any_expectedExits_iff {exit : Option Int} :
    exit.any (· ∈ expectedExits) ↔ exit = some 0 ∨ exit = some 1 := by
  cases exit <;> simp [expectedExits]

/-- Output that is not read is kept, and it is not blank. -/
theorem raw_of_parseIssues {raw : String} {e : OutputError}
    (h : parseIssues raw = .error e) : e.raw = raw ∧ ¬ Text.allBlank raw := by
  by_cases hblank : Text.allBlank raw
  · rw [parseIssues, if_pos hblank] at h
    cases h
  · rw [parseIssues, if_neg hblank] at h
    cases hread : readIssues raw.toList with
    | ok issues =>
        rw [hread] at h
        cases h
    | error flaw =>
        rw [hread] at h
        cases h
        exact ⟨rfl, hblank⟩

theorem append_ne_empty {s t : String} (h : s ≠ "") : s ++ t ≠ "" := by
  intro happend
  exact h (String.append_eq_empty_iff.mp happend).1

/-- A run gives issues, or it owes the user a message that is not empty. -/
theorem ToolOutput.issues_cases (output : ToolOutput) :
    (∃ issues, output.issues = .ok issues ∧ output.Yields issues) ∨
      ∃ e, output.issues = .error e ∧ Owed (.ok output) e.notification ∧
        e.notification.message ≠ "" := by
  by_cases hstderr : Text.trim output.stderr = ""
  · have hquiet := Text.trim_eq_empty_iff.mp hstderr
    by_cases hany : output.exit.any (· ∈ expectedExits)
    · have hexit := any_expectedExits_iff.mp hany
      cases hstdout : parseIssues output.stdout with
      | ok issues =>
          refine Or.inl ⟨issues, ?_, hquiet, hexit, hstdout⟩
          simp [ToolOutput.issues, hstderr, hany, hstdout]
      | error e =>
          obtain ⟨hraw, hwords⟩ := raw_of_parseIssues hstdout
          refine Or.inr ⟨.unreadable e, ?_, ?_⟩
          · simp [ToolOutput.issues, hstderr, hany, hstdout]
          · rw [CheckError.notification, hraw]
            exact ⟨.unreadable hquiet hexit hstdout,
              mt Text.trim_eq_empty_iff.mp hwords⟩
    · refine Or.inr ⟨.unexpectedExit output.exit (Text.trim output.stdout),
        ?_, .exit hquiet (mt any_expectedExits_iff.mpr hany) rfl, ?_⟩
      · simp [ToolOutput.issues, hstderr, hany]
      · change "linter exited unexpectedly (" ++ CheckError.exitLabel output.exit ++
          "): " ++ Text.trim output.stdout ≠ ""
        apply append_ne_empty
        apply append_ne_empty
        apply append_ne_empty
        decide
  · refine Or.inr ⟨.toolReported (Text.trim output.stderr), ?_,
      .noisy (mt Text.trim_eq_empty_iff.mpr hstderr), hstderr⟩
    simp [ToolOutput.issues, hstderr]

/-- An invocation error owes the user a message that is not empty. -/
theorem owed_of_invocation (e : InvocationError) :
    Owed (.error e) (CheckError.invocation e).notification ∧
      (CheckError.invocation e).notification.message ≠ "" := by
  cases e with
  | missingExecutable path =>
      exact ⟨.missing rfl, append_ne_empty (by decide)⟩
  | spawn command cause =>
      exact ⟨.notRun (fun _ h => by cases h) rfl, append_ne_empty (by decide)⟩
  | io cause =>
      exact ⟨.notRun (fun _ h => by cases h) rfl, append_ne_empty (by decide)⟩
  | timeout command limit =>
      exact ⟨.notRun (fun _ h => by cases h) rfl, append_ne_empty (by decide)⟩

namespace Document

/-- A check shows the annotations of the linter's issues, or nothing but a message
that the user is owed. -/
theorem checkReport_cases (d : Document) (o : AnnotationOptions)
    (answer : Except InvocationError ToolOutput) :
    (∃ output issues, answer = .ok output ∧ output.Yields issues ∧
        d.checkReport o answer = { annotations := d.annotations o issues }) ∨
      ∃ n, Owed answer n ∧ n.message ≠ "" ∧
        d.checkReport o answer = { notification := some n } := by
  cases answer with
  | error e => exact Or.inr ⟨_, (owed_of_invocation e).1, (owed_of_invocation e).2, rfl⟩
  | ok output =>
      rcases output.issues_cases with
        ⟨issues, hissues, hyields⟩ | ⟨e, he, howed, hmessage⟩
      · refine Or.inl ⟨output, issues, rfl, hyields, ?_⟩
        simp [checkReport, check, hissues, Except.map]
      · refine Or.inr ⟨e.notification, howed, hmessage, ?_⟩
        simp [checkReport, check, he, Except.map]

/-- A check fails closed: without issues of a run that went through there are no
annotations, and the user is told why. -/
theorem checkReport_fails_closed (d : Document) (o : AnnotationOptions)
    (answer : Except InvocationError ToolOutput) :
    ((d.checkReport o answer).notification = none ↔
        ∃ output issues, answer = .ok output ∧ output.Yields issues) ∧
      (∀ output issues, answer = .ok output → output.Yields issues →
        d.checkReport o answer =
          { annotations := d.annotations o issues, notification := none }) ∧
      ∀ n, (d.checkReport o answer).notification = some n →
        (d.checkReport o answer).annotations = [] ∧ n.message ≠ "" ∧
          n.kind ≠ .info ∧ Owed answer n := by
  rcases d.checkReport_cases o answer with
    ⟨output, issues, rfl, hyields, hreport⟩ | ⟨n, howed, hmessage, hreport⟩
  · rw [hreport]
    refine ⟨⟨fun _ => ⟨output, issues, rfl, hyields⟩, fun _ => rfl⟩, ?_, ?_⟩
    · intro output' issues' houtput hyields'
      cases houtput
      rw [hyields.unique hyields']
    · intro n hn
      cases hn
  · rw [hreport]
    refine ⟨⟨?_, ?_⟩, ?_, ?_⟩
    · intro hnone
      cases hnone
    · rintro ⟨output, issues, rfl, hyields⟩
      exact absurd hyields howed.not_yields
    · rintro output issues rfl hyields
      exact absurd hyields howed.not_yields
    · intro n' hn'
      cases hn'
      exact ⟨rfl, hmessage, howed.kind_ne_info, howed⟩

/-- Words on the error output count more than an exit code and an output that are
both unexpected. -/
theorem checkReport_fails_closed_of_noisy_run :
    let answer : Except InvocationError ToolOutput :=
      .ok { stdout := "oops", stderr := "\tno such file \n", exit := some 2 }
    ((ofString "x").checkReport {} answer).notification =
        some ⟨.warning, "no such file"⟩ ∧
      ((ofString "x").checkReport {} answer).annotations = [] ∧
      Owed answer ⟨.warning, "no such file"⟩ := by
  intro answer
  have hnotification : ((ofString "x").checkReport {} answer).notification =
      some ⟨.warning, "no such file"⟩ := by
    decide
  obtain ⟨hannotations, -, -, howed⟩ :=
    (checkReport_fails_closed (ofString "x") {} answer).2.2 _ hnotification
  exact ⟨hnotification, hannotations, howed⟩

end Document

end Lintmark
