/-
What comes of checking files.  Chunks make no difference to the reports, and the
report on a file has failed unless the file passes.
-/
import Lintmark.Proofs.Annotation.Placement
import Lintmark.Proofs.Check.Chunks
import Lintmark.Proofs.Check.Verdict

namespace Lintmark

theorem Severity.ofLevel_eq_error_iff {level : String} {demote : Bool} :
    Severity.ofLevel level demote = .error ↔ demote = false ∧ level = "error" := by
  unfold ofLevel
  by_cases herror : level = "error"
  · cases demote <;> simp [herror]
  · by_cases hwarning : level = "warning"
    · simp [hwarning]
    · simp [herror, hwarning]

/-- There is an error among the annotations exactly if an issue that fits is one and
errors are shown as such. -/
theorem Document.any_error_annotations_iff {d : Document} {o : AnnotationOptions}
    {issues : List Issue} :
    (d.annotations o issues).any (·.severity == .error) ↔
      o.demote = false ∧ ∃ i ∈ issues, i.Fits d ∧ i.level = "error" := by
  rw [List.any_eq_true]
  simp only [annotations, List.mem_filterMap, beq_iff_eq]
  constructor
  · rintro ⟨a, ⟨i, hi, ha⟩, herror⟩
    have hfits := fits_of_annotate? ha
    rw [annotate?_of_fits hfits] at ha
    cases ha
    obtain ⟨hdemote, hlevel⟩ := Severity.ofLevel_eq_error_iff.mp herror
    exact ⟨hdemote, i, hi, hfits, hlevel⟩
  · rintro ⟨hdemote, i, hi, hfits, hlevel⟩
    exact ⟨_, ⟨i, hi, annotate?_of_fits hfits o⟩,
      Severity.ofLevel_eq_error_iff.mpr ⟨hdemote, hlevel⟩⟩

namespace FileChecker

/-- A worker reads this text from its file, and the answer to it clears the file: the linter
went through with these issues, and none of those that fit the text is shown as an error. -/
structure Clears (c : FileChecker) (worker : Nat) (path : Path) (text : String)
    (output : ToolOutput) (issues : List Issue) : Prop where
  read : c.read worker path = .ends (.ok text)
  yields : output.Yields issues
  mild : c.options.demote = false →
    ∀ i ∈ issues, i.Fits (.ofString text) → i.level ≠ "error"

/-- A worker has the linter run on the text of its file, and the answer clears the file. -/
def Passes (c : FileChecker) (worker : Nat) (path : Path) : Prop :=
  ∃ text output issues, c.linter worker (c.request path text) = .ends (.ok output) ∧
    c.Clears worker path text output issues

variable {c : FileChecker} {worker jobs : Nat} {path : Path} {text : String}
  {paths : List Path} {reports : List FileReport}

theorem check_of_unreadable {cause : SystemError}
    (h : c.read worker path = .ends (.error cause)) :
    c.check worker path = .ends (.unreadable path cause) := by
  rw [check, h]
  rfl

theorem check_of_text (h : c.read worker path = .ends (.ok text)) :
    c.check worker path =
      (c.linter worker (c.request path text)).map (c.report path text) := by
  rw [check, h]
  rfl

/-- A report is there because the file cannot be read, or because the linter has given an
answer about its text. -/
theorem check_eq_ends_iff {r : FileReport} :
    c.check worker path = .ends r ↔
      (∃ cause, c.read worker path = .ends (.error cause) ∧ r = .unreadable path cause) ∨
        ∃ text answer, c.read worker path = .ends (.ok text) ∧
          c.linter worker (c.request path text) = .ends answer ∧
            r = c.report path text answer := by
  rw [check, Attempt.bind_eq_ends_iff]
  constructor
  · rintro ⟨result, hread, hresult⟩
    cases result with
    | error cause =>
        cases hresult
        exact Or.inl ⟨cause, hread, rfl⟩
    | ok text =>
        obtain ⟨answer, hran, rfl⟩ := Attempt.map_eq_ends_iff.mp hresult
        exact Or.inr ⟨text, answer, hread, hran, rfl⟩
  · rintro (⟨cause, hread, rfl⟩ | ⟨text, answer, hread, hran, rfl⟩)
    · exact ⟨_, hread, rfl⟩
    · exact ⟨_, hread, Attempt.map_eq_ends_iff.mpr ⟨answer, hran, rfl⟩⟩

/-- The report on a file has failed, or it shows nothing but annotations of issues that
the linter found. -/
theorem report_cases (c : FileChecker) (path : Path) (text : String)
    (answer : Except InvocationError ToolOutput) :
    (∃ output issues, answer = .ok output ∧ output.Yields issues ∧
        (c.report path text answer).notification = none ∧
        ((c.report path text answer).failed ↔ c.options.demote = false ∧
          ∃ i ∈ issues, i.Fits (.ofString text) ∧ i.level = "error")) ∨
      (c.report path text answer).failed ∧
        ∀ output issues, answer = .ok output → ¬ output.Yields issues := by
  rcases (Document.ofString text).checkReport_cases c.options answer with
    ⟨output, issues, hanswer, hyields, hreport⟩ | ⟨n, howed, -, hreport⟩
  · refine Or.inl ⟨output, issues, hanswer, hyields, ?_, ?_⟩
    · rw [report, hreport]
    · rw [← Document.any_error_annotations_iff]
      simp [report, hreport, FileReport.failed]
  · refine Or.inr ⟨?_, ?_⟩
    · simp [report, hreport, FileReport.failed, howed.kind_ne_info]
    · rintro output issues rfl
      exact howed.not_yields

theorem check_of_passes (h : c.Passes worker path) :
    ∃ r, c.check worker path = .ends r ∧ r.failed = false ∧ r.notification = none := by
  obtain ⟨text, output, issues, hran, hclears⟩ := h
  rw [check_of_text hclears.read, hran]
  refine ⟨_, rfl, ?_⟩
  rcases c.report_cases path text (.ok output) with
    ⟨output', issues', houtput, hyields, hnotification, hfailed⟩ | ⟨-, hnone⟩
  · cases houtput
    rw [hyields.unique hclears.yields] at hfailed
    refine ⟨?_, hnotification⟩
    rw [← Bool.not_eq_true, hfailed]
    rintro ⟨hdemote, i, hi, hfits, hlevel⟩
    exact hclears.mild hdemote i hi hfits hlevel
  · exact absurd hclears.yields (hnone output issues rfl)

theorem passes_of_check {r : FileReport} (h : c.check worker path = .ends r)
    (hfailed : r.failed = false) : c.Passes worker path := by
  rcases check_eq_ends_iff.mp h with ⟨cause, -, rfl⟩ | ⟨text, answer, hread, hran, rfl⟩
  · cases hfailed
  · rcases c.report_cases path text answer with
      ⟨output, issues, rfl, hyields, -, hiff⟩ | ⟨htrue, -⟩
    · refine ⟨text, output, issues, hran, hread, hyields, ?_⟩
      intro hdemote i hi hfits hlevel
      have htrue := hiff.mpr ⟨hdemote, i, hi, hfits, hlevel⟩
      cases htrue.symm.trans hfailed
    · cases htrue.symm.trans hfailed

/-- A file passes exactly if there is a report on it that has not failed. -/
theorem passes_iff :
    c.Passes worker path ↔ ∃ r, c.check worker path = .ends r ∧ r.failed = false := by
  constructor
  · intro h
    obtain ⟨r, hr, hfailed, -⟩ := check_of_passes h
    exact ⟨r, hr, hfailed⟩
  · rintro ⟨r, hr, hfailed⟩
    exact passes_of_check hr hfailed

theorem mem_checkEach_zipIdx {attempt : Attempt FileReport} :
    attempt ∈ c.checkEach paths.zipIdx ↔
      ∃ k path, paths[k]? = some path ∧ c.check k path = attempt := by
  simp only [checkEach, List.mem_map, Prod.exists, List.mem_zipIdx_iff_getElem?]
  exact exists_comm

theorem forall_checkEach_iff {holds : Attempt FileReport → Prop} :
    (∀ w ∈ c.checkEach paths.zipIdx, holds w) ↔
      ∀ k path, paths[k]? = some path → holds (c.check k path) := by
  simp only [mem_checkEach_zipIdx]
  constructor
  · intro h k path hpath
    exact h _ ⟨k, path, hpath, rfl⟩
  · rintro h _ ⟨k, path, hpath, rfl⟩
    exact h k path hpath

theorem flatten_checkEach_chunks (c : FileChecker) (jobs : Nat) (paths : List Path) :
    ((chunks jobs paths.zipIdx).map c.checkEach).flatten = c.checkEach paths.zipIdx := by
  have hflatten := List.map_flatten (L := chunks jobs paths.zipIdx)
    (f := fun file => c.check file.2 file.1)
  rw [flatten_chunks] at hflatten
  exact hflatten.symm

/-- There are reports exactly if every worker ends with one, and then they are those. -/
theorem checkAll_eq_some_iff :
    c.checkAll jobs paths = .ends (some reports) ↔
      c.checkEach paths.zipIdx = reports.map .ends := by
  rw [checkAll, joinChunks_eq_some_iff, flatten_checkEach_chunks]

/-- Every worker ends with a report exactly if there is a list of reports. -/
theorem exists_checkAll_iff (jobs : Nat) :
    (∃ reports, c.checkAll jobs paths = .ends (some reports)) ↔
      ∀ w ∈ c.checkEach paths.zipIdx, w.Ends := by
  simp only [checkAll_eq_some_iff, exists_map_ends_iff]

theorem mem_of_checkAll (h : c.checkAll jobs paths = .ends (some reports)) {r : FileReport} :
    r ∈ reports ↔ ∃ k path, paths[k]? = some path ∧ c.check k path = .ends r := by
  rw [← mem_checkEach_zipIdx, checkAll_eq_some_iff.mp h, List.mem_map]
  simp

/-- All files pass exactly if there are reports and none of them has failed. -/
theorem all_pass_iff (jobs : Nat) (paths : List Path) :
    (∃ reports, c.checkAll jobs paths = .ends (some reports) ∧
        ∀ r ∈ reports, r.failed = false) ↔
      ∀ k path, paths[k]? = some path → c.Passes k path := by
  constructor
  · rintro ⟨reports, hreports, hfailed⟩ k path hpath
    have hends := (exists_checkAll_iff jobs).mp ⟨reports, hreports⟩
    obtain ⟨r, hr⟩ := forall_checkEach_iff.mp hends k path hpath
    have hmem := (mem_of_checkAll hreports).mpr ⟨k, path, hpath, hr⟩
    exact passes_iff.mpr ⟨r, hr, hfailed r hmem⟩
  · intro hpass
    have hends : ∀ w ∈ c.checkEach paths.zipIdx, w.Ends := by
      refine forall_checkEach_iff.mpr fun k path hpath => ?_
      obtain ⟨r, hr, -⟩ := check_of_passes (hpass k path hpath)
      exact ⟨r, hr⟩
    obtain ⟨reports, hreports⟩ := (exists_checkAll_iff jobs).mpr hends
    refine ⟨reports, hreports, ?_⟩
    intro r hr
    obtain ⟨k, path, hpath, hcheck⟩ := (mem_of_checkAll hreports).mp hr
    obtain ⟨r', hr', hfailed, -⟩ := check_of_passes (hpass k path hpath)
    cases hr'.symm.trans hcheck
    exact hfailed

/-- Reports on files that pass come without messages. -/
theorem notification_of_all_pass (hreports : c.checkAll jobs paths = .ends (some reports))
    (hpass : ∀ k path, paths[k]? = some path → c.Passes k path) :
    ∀ r ∈ reports, r.notification = none := by
  intro r hr
  obtain ⟨k, path, hpath, hcheck⟩ := (mem_of_checkAll hreports).mp hr
  obtain ⟨r', hr', -, hnone⟩ := check_of_passes (hpass k path hpath)
  cases hr'.symm.trans hcheck
  exact hnone

/-- Where no worker breaks down, there are reports unless a worker never ends. -/
theorem checkAll_of_unbroken (jobs : Nat)
    (h : .breaks ∉ c.checkEach paths.zipIdx) :
    c.checkAll jobs paths = .never ∨
      ∃ reports, c.checkAll jobs paths = .ends (some reports) := by
  apply joinChunks_of_unbroken
  rwa [flatten_checkEach_chunks]

/-- Where every worker ends or breaks down, checking files comes to an end. -/
theorem checkAll_ne_never (jobs : Nat)
    (h : .never ∉ c.checkEach paths.zipIdx) :
    c.checkAll jobs paths ≠ .never := by
  apply joinChunks_ne_never
  rwa [flatten_checkEach_chunks]

end FileChecker

/-- What a report adds to the error output. -/
def FileReport.notice (r : FileReport) : Option String :=
  r.notification.map (notificationLine (some r.path))

/-- What a report tells apart from its annotations. -/
def FileReport.verdict (r : FileReport) : Option String × Bool :=
  (r.notice, r.failed)

def FileChecker.withWholeLine (c : FileChecker) (wholeLine : Bool) : FileChecker :=
  { c with options := { c.options with wholeLine } }

variable (wholeLine : Bool)

namespace FileChecker

/-- Whole lines move annotations, and change nothing else about a report. -/
theorem verdict_report_withWholeLine (c : FileChecker) (path : Path) (text : String)
    (answer : Except InvocationError ToolOutput) :
    ((c.withWholeLine wholeLine).report path text answer).verdict =
      (c.report path text answer).verdict := by
  cases answer with
  | error e => rfl
  | ok output =>
      cases hissues : output.issues with
      | error e =>
          simp only [FileReport.verdict, FileReport.notice, FileReport.failed, report,
            Document.checkReport, Document.check, hissues, Except.map]
      | ok issues =>
          have herrors : ((Document.ofString text).annotations
                { c.options with wholeLine } issues).any (·.severity == .error) =
              ((Document.ofString text).annotations c.options issues).any
                (·.severity == .error) := by
            rw [Bool.eq_iff_iff, Document.any_error_annotations_iff,
              Document.any_error_annotations_iff]
          simp only [FileReport.verdict, FileReport.notice, FileReport.failed, report,
            withWholeLine, Document.checkReport, Document.check, hissues, Except.map, herrors]

theorem verdict_withWholeLine (c : FileChecker) (worker : Nat) (path : Path) :
    ((c.withWholeLine wholeLine).check worker path).map FileReport.verdict =
      (c.check worker path).map FileReport.verdict := by
  have hread : (c.withWholeLine wholeLine).read worker path = c.read worker path := rfl
  cases hresult : c.read worker path with
  | breaks => simp only [check, hread, hresult, Attempt.bind]
  | never => simp only [check, hread, hresult, Attempt.bind]
  | ends result =>
      cases result with
      | error cause =>
          rw [check_of_unreadable hresult, check_of_unreadable (hread.trans hresult)]
      | ok text =>
          have hsame : FileReport.verdict ∘ (c.withWholeLine wholeLine).report path text =
              FileReport.verdict ∘ c.report path text :=
            funext (c.verdict_report_withWholeLine wholeLine path text)
          have hanswer : (c.withWholeLine wholeLine).linter worker
                ((c.withWholeLine wholeLine).request path text) =
              c.linter worker (c.request path text) := rfl
          rw [check_of_text hresult, check_of_text (hread.trans hresult), Attempt.map_map,
            Attempt.map_map, hsame, hanswer]

theorem verdicts_withWholeLine (c : FileChecker) (jobs : Nat) (paths : List Path) :
    ((c.withWholeLine wholeLine).checkAll jobs paths).map
        (Option.map (List.map FileReport.verdict)) =
      (c.checkAll jobs paths).map (Option.map (List.map FileReport.verdict)) := by
  have hsame : List.map (Attempt.map FileReport.verdict) ∘
        (c.withWholeLine wholeLine).checkEach =
      List.map (Attempt.map FileReport.verdict) ∘ c.checkEach := by
    funext files
    simp only [Function.comp_apply, checkEach, List.map_map]
    apply List.map_congr_left
    intro file _
    exact c.verdict_withWholeLine wholeLine file.2 file.1
  rw [checkAll, checkAll, joinChunks_map, joinChunks_map, List.map_map, List.map_map, hsame]

end FileChecker

end Lintmark
