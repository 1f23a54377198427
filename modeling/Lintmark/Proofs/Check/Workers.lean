/-
Checking files with workers that take turns in any order.  What a crew will come to stays
the same with every step, so that the reports come out in the order of the paths, whichever
worker is faster.
-/
import Mathlib.Algebra.BigOperators.Group.List.Basic
import Mathlib.Algebra.GroupWithZero.Nat
import Lintmark.Proofs.Check.Files

namespace Lintmark

inductive Worker where
  | started (number : Nat) (path : Path)
  /-- It has read the text of its file and is about to ask the linter. -/
  | asking (number : Nat) (path : Path) (text : String)
  | ended (report : FileReport)
  | lost (path : Path)

namespace Worker

def isRunning : Worker → Bool
  | started _ _ => true
  | asking _ _ _ => true
  | _ => false

/-- The most steps that the worker can still take, being waited for among them. -/
def stepsLeft : Worker → Nat
  | started _ _ => 3
  | asking _ _ _ => 2
  | _ => 1

/-- What will come of the worker. -/
def outcome (c : FileChecker) : Worker → Attempt FileReport
  | started number path => c.check number path
  | asking number path text =>
    (c.linter number (c.request path text)).map (c.report path text)
  | ended report => .ends report
  | lost _ => .breaks

/-- What a worker does next.  It stays as it is when it reads a file without an end, or the
linter gives no answer. -/
inductive Step (c : FileChecker) : Worker → Worker → Prop where
  | read {number : Nat} {path : Path} {text : String}
      (h : c.read number path = .ends (.ok text)) :
      Step c (.started number path) (.asking number path text)
  | fail {number : Nat} {path : Path} {cause : SystemError}
      (h : c.read number path = .ends (.error cause)) :
      Step c (.started number path) (.ended (.unreadable path cause))
  | breakReading {number : Nat} {path : Path} (h : c.read number path = .breaks) :
      Step c (.started number path) (.lost path)
  | ask {number : Nat} {path : Path} {text : String}
      {answer : Except InvocationError ToolOutput}
      (h : c.linter number (c.request path text) = .ends answer) :
      Step c (.asking number path text) (.ended (c.report path text answer))
  | breakAsking {number : Nat} {path : Path} {text : String}
      (h : c.linter number (c.request path text) = .breaks) :
      Step c (.asking number path text) (.lost path)

variable {c : FileChecker} {w w' : Worker}

/-- No step changes what will come of a worker. -/
theorem Step.outcome_eq (h : Step c w w') : w'.outcome c = w.outcome c := by
  cases h with
  | read h => exact (FileChecker.check_of_text h).symm
  | fail h => exact (FileChecker.check_of_unreadable h).symm
  | breakReading h => simp only [outcome, FileChecker.check, h, Attempt.bind]
  | ask h => simp only [outcome, h, Attempt.map_ends]
  | breakAsking h => simp only [outcome, h, Attempt.map]

theorem Step.stepsLeft_lt (h : Step c w w') : w'.stepsLeft < w.stepsLeft := by
  cases h <;> simp [stepsLeft]

/-- A worker has ended or broken down, or goes on, unless it never will. -/
theorem exists_step (h : w.outcome c ≠ .never) :
    (∃ report, w = .ended report) ∨ (∃ path, w = .lost path) ∨ ∃ w', Step c w w' := by
  cases w with
  | ended report => exact Or.inl ⟨report, rfl⟩
  | lost path => exact Or.inr (Or.inl ⟨path, rfl⟩)
  | started number path =>
      refine Or.inr (Or.inr ?_)
      cases hread : c.read number path with
      | breaks => exact ⟨_, .breakReading hread⟩
      | never => exact absurd (by rw [outcome, FileChecker.check, hread, Attempt.bind]) h
      | ends result =>
          cases result with
          | ok text => exact ⟨_, .read hread⟩
          | error cause => exact ⟨_, .fail hread⟩
  | asking number path text =>
      refine Or.inr (Or.inr ?_)
      cases hanswer : c.linter number (c.request path text) with
      | breaks => exact ⟨_, .breakAsking hanswer⟩
      | never => exact absurd (Attempt.map_eq_never_iff.mpr hanswer) h
      | ends answer => exact ⟨_, .ask hanswer⟩

end Worker

/-- A moment of checking files: the caller with its workers. -/
structure Crew where
  reports : List FileReport
  /-- What has come of those workers of this chunk that have been waited for. -/
  joined : List (Attempt FileReport)
  /-- The other workers of this chunk, in the order of their files. -/
  workers : List Worker
  /-- The files of this chunk that have no worker yet, each with its number. -/
  idle : List (Path × Nat)
  /-- The chunks that have not begun. -/
  waiting : List (List (Path × Nat))

namespace Crew

def start (jobs : Nat) (paths : List Path) : Crew :=
  ⟨[], [], [], [], chunks jobs paths.zipIdx⟩

/-- What may happen next.  Any worker may go on at any time.  The caller waits for its
workers in their order, once all of them have started, and a chunk begins when all workers
of the one before it have ended with a report. -/
inductive Step (c : FileChecker) : Crew → Crew → Prop where
  | spawn {reports joined workers path number idle waiting} :
      Step c ⟨reports, joined, workers, (path, number) :: idle, waiting⟩
        ⟨reports, joined, workers ++ [.started number path], idle, waiting⟩
  | work {reports joined front w w' back idle waiting} (h : Worker.Step c w w') :
      Step c ⟨reports, joined, front ++ w :: back, idle, waiting⟩
        ⟨reports, joined, front ++ w' :: back, idle, waiting⟩
  | join {reports joined report workers waiting} :
      Step c ⟨reports, joined, .ended report :: workers, [], waiting⟩
        ⟨reports, joined ++ [.ends report], workers, [], waiting⟩
  | lose {reports joined path workers waiting} :
      Step c ⟨reports, joined, .lost path :: workers, [], waiting⟩
        ⟨reports, joined ++ [.breaks], workers, [], waiting⟩
  | next {reports joined results chunk waiting}
      (h : joinAll joined = .ends (some results)) :
      Step c ⟨reports, joined, [], [], chunk :: waiting⟩
        ⟨reports ++ results, [], [], chunk, waiting⟩

inductive Run (c : FileChecker) (s : Crew) : Nat → Crew → Prop where
  | refl : Run c s 0 s
  | step {n s' s''} (h : Run c s n s') (hstep : Step c s' s'') : Run c s (n + 1) s''

/-- What the caller returns once all workers of a chunk have been waited for: all reports
behind the last chunk, and before it what a chunk with a lost worker comes to. -/
def returned? : Crew → Option (Attempt (Option (List FileReport)))
  | ⟨reports, joined, [], [], []⟩ => some ((joinAll joined).map (Option.map (reports ++ ·)))
  | ⟨_, joined, [], [], _ :: _⟩ =>
    match joinAll joined with
    | .ends (some _) => none
    | failure => some failure
  | _ => none

def running (s : Crew) : Nat :=
  s.workers.countP Worker.isRunning

def comesTo (c : FileChecker) (s : Crew) : Attempt (Option (List FileReport)) :=
  let chunk := s.joined ++ s.workers.map (·.outcome c) ++ c.checkEach s.idle
  (joinChunks (chunk :: s.waiting.map c.checkEach)).map (Option.map (s.reports ++ ·))

/-- A chunk has at most so many files, and so many of this one have not been waited for. -/
structure Within (jobs : Nat) (s : Crew) : Prop where
  chunk : s.workers.length + s.idle.length ≤ jobs
  waiting : ∀ chunk ∈ s.waiting, chunk.length ≤ jobs

/-- The most steps that can still be taken: four for a file without a worker, and one
to begin a chunk. -/
def stepsLeft (s : Crew) : Nat :=
  (s.workers.map Worker.stepsLeft).sum + 4 * s.idle.length +
    (s.waiting.map fun chunk => 4 * chunk.length + 1).sum

variable {c : FileChecker} {s s' : Crew} {jobs n : Nat} {paths : List Path}

/-- The first worker goes on. -/
theorem Step.work_first {reports joined idle waiting} {w w' : Worker} {rest : List Worker}
    (h : Worker.Step c w w') :
    Step c ⟨reports, joined, w :: rest, idle, waiting⟩
      ⟨reports, joined, w' :: rest, idle, waiting⟩ := by
  rw [← List.nil_append (w :: rest), ← List.nil_append (w' :: rest)]
  exact .work h

theorem comesTo_next {reports results : List FileReport} {joined : List (Attempt FileReport)}
    {chunk : List (Path × Nat)} {waiting : List (List (Path × Nat))}
    (h : joinAll joined = .ends (some results)) :
    comesTo c ⟨reports, joined, [], [], chunk :: waiting⟩ =
      comesTo c ⟨reports ++ results, [], [], chunk, waiting⟩ := by
  have hassoc : Option.map (reports ++ ·) ∘ Option.map (results ++ ·) =
      Option.map (reports ++ results ++ ·) := by
    funext later?
    cases later? <;> simp
  simp only [comesTo, FileChecker.checkEach, List.map_nil, List.append_nil, List.map_cons,
    List.nil_append]
  rw [joinChunks, h, Attempt.bind, Attempt.map_map, hassoc]

/-- No step changes what the crew will come to. -/
theorem Step.comesTo_eq (h : Step c s s') : s'.comesTo c = s.comesTo c := by
  cases h with
  | spawn => simp [comesTo, Worker.outcome, FileChecker.checkEach]
  | work h => simp [comesTo, h.outcome_eq]
  | join | lose => simp [comesTo, Worker.outcome]
  | next h => exact (comesTo_next h).symm

theorem Step.within (h : Step c s s') (hs : s.Within jobs) : s'.Within jobs := by
  obtain ⟨hchunk, hwaiting⟩ := hs
  cases h with
  | spawn =>
      refine ⟨?_, hwaiting⟩
      simp only [List.length_append, List.length_cons, List.length_nil] at hchunk ⊢
      omega
  | work h =>
      refine ⟨?_, hwaiting⟩
      simpa only [List.length_append, List.length_cons] using hchunk
  | join | lose => exact ⟨Nat.le_of_succ_le (by simpa using hchunk), hwaiting⟩
  | next h =>
      obtain ⟨hfirst, hrest⟩ := List.forall_mem_cons.mp hwaiting
      exact ⟨by simpa using hfirst, hrest⟩

theorem Step.stepsLeft_lt (h : Step c s s') : s'.stepsLeft < s.stepsLeft := by
  cases h with
  | spawn =>
      simp only [stepsLeft, List.map_append, List.sum_append, List.map_cons,
        List.map_nil, List.sum_singleton, Worker.stepsLeft, List.length_cons]
      omega
  | work h =>
      have hless := h.stepsLeft_lt
      simp only [stepsLeft, List.map_append, List.sum_append, List.map_cons,
        List.sum_cons]
      omega
  | join | lose =>
      simp only [stepsLeft, List.map_cons, List.sum_cons, Worker.stepsLeft]
      omega
  | next h =>
      simp only [stepsLeft, List.map_nil, List.sum_nil, List.length_nil,
        List.map_cons, List.sum_cons]
      omega

theorem outcome_ne_never {reports joined w workers idle waiting}
    (h : comesTo c ⟨reports, joined, w :: workers, idle, waiting⟩ ≠ .never) :
    w.outcome c ≠ .never := by
  intro hnever
  apply h
  have hmem : .never ∈ joined ++ (w :: workers).map (·.outcome c) ++ c.checkEach idle := by
    simp [hnever]
  rw [comesTo, Attempt.map_eq_never_iff, joinChunks]
  rcases joinAll_cases (joined ++ (w :: workers).map (·.outcome c) ++ c.checkEach idle) with
    ⟨-, hjoin⟩ | ⟨hnot, -, -⟩ | ⟨results, hresults, -⟩
  · rw [hjoin, Attempt.bind]
  · exact absurd hmem hnot
  · rw [hresults] at hmem
    simp at hmem

/-- While the caller has nothing to return, somebody can go on, unless the crew is to go on
for ever. -/
theorem exists_step (hends : s.comesTo c ≠ .never) (hleft : s.returned? = none) :
    ∃ s', Step c s s' := by
  obtain ⟨reports, joined, workers, idle, waiting⟩ := s
  cases idle with
  | cons file idle => exact ⟨_, .spawn⟩
  | nil =>
      cases workers with
      | cons w workers =>
          rcases Worker.exists_step (outcome_ne_never hends) with
            ⟨report, rfl⟩ | ⟨path, rfl⟩ | ⟨w', hstep⟩
          · exact ⟨_, .join⟩
          · exact ⟨_, .lose⟩
          · exact ⟨_, .work_first hstep⟩
      | nil =>
          cases waiting with
          | nil => cases hleft
          | cons chunk waiting =>
              simp only [returned?] at hleft
              split at hleft
              · rename_i hjoin
                exact ⟨_, .next hjoin⟩
              · cases hleft

theorem Run.comesTo_eq (h : Run c s n s') : s'.comesTo c = s.comesTo c := by
  induction h with
  | refl => rfl
  | step _ hstep ih => exact hstep.comesTo_eq.trans ih

theorem Run.within (h : Run c s n s') (hs : s.Within jobs) : s'.Within jobs := by
  induction h with
  | refl => exact hs
  | step _ hstep ih => exact hstep.within ih

theorem Run.add_stepsLeft_le (h : Run c s n s') :
    n + s'.stepsLeft ≤ s.stepsLeft := by
  induction h with
  | refl => simp
  | step _ hstep ih =>
      have hless := hstep.stepsLeft_lt
      omega

theorem length_le_of_mem_chunks {α : Type} (hjobs : 1 ≤ jobs) (as : List α) :
    ∀ chunk ∈ chunks jobs as, chunk.length ≤ jobs := by
  fun_induction chunks jobs as with
  | case1 => simp
  | case2 a as ih =>
      refine List.forall_mem_cons.mpr ⟨?_, ih⟩
      have htake := List.length_take_le (jobs - 1) as
      rw [List.length_cons]
      omega

theorem stepsLeft_chunks_le {α : Type} (jobs : Nat) (as : List α) :
    ((chunks jobs as).map fun chunk => 4 * chunk.length + 1).sum ≤ 5 * as.length := by
  fun_induction chunks jobs as with
  | case1 => simp
  | case2 a as ih =>
      simp only [List.map_cons, List.sum_cons, List.length_cons, List.length_take,
        List.length_drop] at ih ⊢
      omega

theorem within_start (hjobs : 1 ≤ jobs) (paths : List Path) :
    (start jobs paths).Within jobs :=
  ⟨Nat.zero_le _, length_le_of_mem_chunks hjobs paths.zipIdx⟩

theorem comesTo_start (c : FileChecker) (jobs : Nat) (paths : List Path) :
    (start jobs paths).comesTo c = c.checkAll jobs paths := by
  have hnil : Option.map ([] ++ ·) ∘ Option.map ([] ++ ·) =
      (id : Option (List FileReport) → _) := by
    funext reports?
    cases reports? <;> rfl
  have hid (result : Attempt (Option (List FileReport))) : result.map id = result := by
    cases result <;> rfl
  have hjoin : joinAll ([] : List (Attempt FileReport)) = .ends (some []) :=
    joinAll_map_ends []
  simp only [comesTo, start, FileChecker.checkEach, List.map_nil, List.append_nil]
  rw [joinChunks, hjoin, Attempt.bind, Attempt.map_map, hnil, hid]
  rfl

theorem stepsLeft_start_le (jobs : Nat) (paths : List Path) :
    (start jobs paths).stepsLeft ≤ 5 * paths.length := by
  simpa [start, stepsLeft] using stepsLeft_chunks_le jobs paths.zipIdx

theorem comesTo_of_returned {result : Attempt (Option (List FileReport))}
    (h : s.returned? = some result) : s.comesTo c = result := by
  obtain ⟨reports, joined, workers, idle, waiting⟩ := s
  cases workers with
  | cons w workers => cases h
  | nil =>
      cases idle with
      | cons file idle => cases h
      | nil =>
          simp only [comesTo, FileChecker.checkEach, List.map_nil, List.append_nil]
          rw [joinChunks]
          cases waiting with
          | nil =>
              simp only [returned?, Option.some_inj] at h
              rw [← h]
              cases joinAll joined with
              | breaks => rfl
              | never => rfl
              | ends results? => cases results? <;> simp [Attempt.bind, joinChunks]
          | cons chunk waiting =>
              simp only [returned?] at h
              split at h
              · cases h
              · rename_i hfailure
                cases h
                cases hjoin : joinAll joined with
                | breaks => rfl
                | never => rfl
                | ends results? =>
                    cases results? with
                    | none => rfl
                    | some results => exact absurd hjoin (hfailure results)

theorem running_le (h : s.Within jobs) : s.running ≤ jobs := by
  calc
    s.running ≤ s.workers.length := List.countP_le_length
    _ ≤ s.workers.length + s.idle.length := Nat.le_add_right _ _
    _ ≤ jobs := h.chunk

/-- What is returned is what checking the files comes to, whether or not workers break down
on the way. -/
theorem Run.checkAll_eq {result : Attempt (Option (List FileReport))}
    (h : Run c (start jobs paths) n s) (hreturned : s.returned? = some result) :
    c.checkAll jobs paths = result := by
  rw [← comesTo_start, ← h.comesTo_eq, comesTo_of_returned hreturned]

/-- What checking the files comes to is returned, or somebody can go on. -/
theorem Run.returns_or_goes_on (h : Run c (start jobs paths) n s)
    (hends : c.checkAll jobs paths ≠ .never) :
    s.returned? = some (c.checkAll jobs paths) ∨
      s.returned? = none ∧ ∃ s', Step c s s' := by
  cases hreturned : s.returned? with
  | some result => exact Or.inl (by rw [h.checkAll_eq hreturned])
  | none =>
      refine Or.inr ⟨rfl, exists_step ?_ hreturned⟩
      rwa [h.comesTo_eq, comesTo_start]

end Crew

namespace FileChecker

variable {c c' : FileChecker} {worker jobs : Nat} {path : Path} {paths : List Path}
  {reports : List FileReport}

theorem path_of_check {r : FileReport} (h : c.check worker path = .ends r) :
    r.path = path := by
  rcases check_eq_ends_iff.mp h with ⟨cause, -, rfl⟩ | ⟨text, answer, -, -, rfl⟩
  · rfl
  · rfl

theorem getElem?_checkAll (h : c.checkAll jobs paths = .ends (some reports)) (k : Nat) :
    reports[k]?.map .ends = paths[k]?.map (c.check k) := by
  have hk := congrArg (·[k]?) (checkAll_eq_some_iff.mp h)
  simpa [checkEach, Function.comp_def, eq_comm] using hk

theorem map_path_of_checkAll (h : c.checkAll jobs paths = .ends (some reports)) :
    reports.map FileReport.path = paths := by
  apply List.ext_getElem?
  intro k
  have hk := getElem?_checkAll h k
  rw [List.getElem?_map]
  cases hreport : reports[k]? with
  | none =>
      rw [hreport, Option.map_none, eq_comm, Option.map_eq_none_iff] at hk
      rw [hk, Option.map_none]
  | some r =>
      rw [hreport, Option.map_some, eq_comm, Option.map_eq_some_iff] at hk
      obtain ⟨path, hpath, hcheck⟩ := hk
      rw [hpath, Option.map_some, path_of_check hcheck]

/-- It makes no difference which worker reads a file, or asks the linter. -/
def IsUniform (c : FileChecker) : Prop :=
  ∀ worker, c.read worker = c.read 0 ∧ c.linter worker = c.linter 0

theorem IsUniform.check_eq (h : c.IsUniform) (worker : Nat) (path : Path) :
    c.check worker path = c.check 0 path := by
  obtain ⟨hread, hlinter⟩ := h worker
  rw [check, check, hread, hlinter]

/-- Then the workers have nothing to do with the reports. -/
theorem IsUniform.checkEach_eq (h : c.IsUniform) (paths : List Path) :
    c.checkEach paths.zipIdx = paths.map (c.check 0) := by
  have hsame : c.checkEach paths.zipIdx = (paths.zipIdx.map Prod.fst).map (c.check 0) := by
    rw [List.map_map]
    exact List.map_congr_left fun file _ => h.check_eq file.2 file.1
  rw [hsame, List.zipIdx_map_fst]

/-- Two ways to check files treat one of them alike: the worker reads the same text, and its
linter says the same about it. -/
structure SameFor (c c' : FileChecker) (worker : Nat) (path : Path) : Prop where
  dir : c'.dir = c.dir
  options : c'.options = c.options
  read : c'.read worker path = c.read worker path
  linter : ∀ text, c'.linter worker (c.request path text) =
    c.linter worker (c.request path text)

theorem SameFor.check_eq (h : c.SameFor c' worker path) :
    c'.check worker path = c.check worker path := by
  have hrequest (text : String) : c'.request path text = c.request path text := by
    rw [request, request, h.dir]
  have hreport (text : String) : c'.report path text = c.report path text := by
    funext answer
    rw [report, report, h.options]
  rw [check, check, h.read]
  congr 1
  funext result
  cases result with
  | error cause => rfl
  | ok text => simp only [hrequest, hreport, h.linter]

/-- However the workers take turns, their reports come out as if the files had been
checked one by one.  No more than `jobs` workers run at a time, somebody can go on until
the reports are returned, and that happens after at most five steps for each path.  The
report on a path depends on nothing but its own file. -/
theorem crew_checks_in_order (c : FileChecker) {jobs : Nat} {paths : List Path}
    (hjobs : 1 ≤ jobs)
    (hanswered : ∀ k path, paths[k]? = some path → (c.check k path).Ends) :
    ∃ reports, c.checkAll jobs paths = .ends (some reports) ∧
      c.checkEach paths.zipIdx = reports.map .ends ∧
      (c.IsUniform → paths.map (c.check 0) = reports.map .ends) ∧
      reports.map FileReport.path = paths ∧
      (∀ n s, Crew.Run c (Crew.start jobs paths) n s →
        n ≤ 5 * paths.length ∧ s.running ≤ jobs ∧
          (s.returned? = some (.ends (some reports)) ∨
            s.returned? = none ∧ ∃ s', Crew.Step c s s')) ∧
      ∀ (c' : FileChecker) (jobs' n : Nat) (s : Crew) (reports' : List FileReport),
        Crew.Run c' (Crew.start jobs' paths) n s →
          s.returned? = some (.ends (some reports')) →
            ∀ (k : Nat) (path : Path), paths[k]? = some path → c.SameFor c' k path →
              reports'[k]? = reports[k]? := by
  obtain ⟨reports, hreports⟩ :=
    (exists_checkAll_iff jobs).mpr (forall_checkEach_iff.mpr hanswered)
  have heach := checkAll_eq_some_iff.mp hreports
  refine ⟨reports, hreports, heach, ?_, map_path_of_checkAll hreports, ?_, ?_⟩
  · intro huniform
    rw [← huniform.checkEach_eq, heach]
  · intro n s hrun
    have hwithin := hrun.within (Crew.within_start hjobs paths)
    have hsteps := hrun.add_stepsLeft_le
    have hfirst := Crew.stepsLeft_start_le jobs paths
    have hnext := hrun.returns_or_goes_on (by rw [hreports]; exact nofun)
    rw [hreports] at hnext
    exact ⟨by omega, Crew.running_le hwithin, hnext⟩
  · intro c' jobs' n s reports' hrun hreturned k path hpath hsame
    have hk := getElem?_checkAll hreports k
    have hk' := getElem?_checkAll (hrun.checkAll_eq hreturned) k
    rw [hpath, Option.map_some] at hk hk'
    rw [hsame.check_eq, ← hk] at hk'
    exact Option.map_injective (fun _ _ => Attempt.ends.inj) hk'

/-- A directory with one script, and a linter that never finds anything. -/
def quietDesk : FileChecker where
  dir := ⟨"/work"⟩
  read _ path := FileTree.readText ⟨[(["work".toList], .directory),
    (["work".toList, "run.sh".toList], .file 0o644 [101, 99, 104, 111, 10])]⟩
    ["work".toList] path
  linter _ _ := .ends (.ok { exit := some 0 })

/-- Two workers check a script, a file that is missing, and the script again.  The
second worker ends before the first one has read its file, and the third one has to
wait until both are gone. -/
theorem crew_run_quietDesk :
    ∃ s reports,
      Crew.Run quietDesk (Crew.start 2 [⟨"run.sh"⟩, ⟨"gone.sh"⟩, ⟨"run.sh"⟩]) 13 s ∧
        s.returned? = some (.ends (some reports)) ∧
        reports.map FileReport.failed = [false, true, false] := by
  have hread (number : Nat) : Worker.Step quietDesk (.started number ⟨"run.sh"⟩)
      (.asking number ⟨"run.sh"⟩ "echo\n") := .read rfl
  have hask (number : Nat) : Worker.Step quietDesk (.asking number ⟨"run.sh"⟩ "echo\n")
      (.ended (quietDesk.report ⟨"run.sh"⟩ "echo\n" (.ok { exit := some 0 }))) := .ask rfl
  have hfail : Worker.Step quietDesk (.started 1 ⟨"gone.sh"⟩)
      (.ended (.unreadable ⟨"gone.sh"⟩ .noEntry)) := .fail rfl
  have hstart : Crew.start 2 [⟨"run.sh"⟩, ⟨"gone.sh"⟩, ⟨"run.sh"⟩] =
      ⟨[], [], [], [], [[(⟨"run.sh"⟩, 0), (⟨"gone.sh"⟩, 1)], [(⟨"run.sh"⟩, 2)]]⟩ := by
    simp [Crew.start, chunks]
  rw [hstart]
  have hboth : Crew.Run quietDesk
      ⟨[], [], [], [], [[(⟨"run.sh"⟩, 0), (⟨"gone.sh"⟩, 1)], [(⟨"run.sh"⟩, 2)]]⟩ 3
      ⟨[], [], [.started 0 ⟨"run.sh"⟩] ++ .started 1 ⟨"gone.sh"⟩ :: [], [],
        [[(⟨"run.sh"⟩, 2)]]⟩ :=
    ((Crew.Run.refl.step (.next rfl)).step .spawn).step .spawn
  have hsecond := hboth.step (.work hfail)
  have hfirst := (hsecond.step (.work_first (hread 0))).step (.work_first (hask 0))
  have hchunk := (hfirst.step .join).step .join
  have hthird := ((hchunk.step (.next rfl)).step .spawn).step (.work_first (hread 2))
  exact ⟨_, _, (hthird.step (.work_first (hask 2))).step .join, rfl, rfl⟩

theorem crew_checks_in_order_of_missing_file :
    ∃ reports,
      quietDesk.checkAll 2 [⟨"run.sh"⟩, ⟨"gone.sh"⟩, ⟨"run.sh"⟩] = .ends (some reports) ∧
      reports.map FileReport.failed = [false, true, false] ∧
      ∃ s, Crew.Run quietDesk (Crew.start 2 [⟨"run.sh"⟩, ⟨"gone.sh"⟩, ⟨"run.sh"⟩]) 13 s ∧
        s.returned? = some (.ends (some reports)) := by
  have hanswered : ∀ k path, [(⟨"run.sh"⟩ : Path), ⟨"gone.sh"⟩, ⟨"run.sh"⟩][k]? = some path →
      (quietDesk.check k path).Ends := by
    intro k path hpath
    have hmem := List.mem_of_getElem? hpath
    simp only [List.mem_cons, List.not_mem_nil, or_false] at hmem
    rcases hmem with rfl | rfl | rfl <;> exact ⟨_, rfl⟩
  obtain ⟨reports, hall, -, -, -, hruns, -⟩ :=
    crew_checks_in_order quietDesk (by decide : 1 ≤ 2) hanswered
  obtain ⟨s, reports', hrun, hreturned, hfailed⟩ := crew_run_quietDesk
  obtain ⟨-, -, hsame | ⟨hnone, -⟩⟩ := hruns 13 s hrun
  · cases hreturned.symm.trans hsame
    exact ⟨reports, hall, hfailed, s, hrun, hreturned⟩
  · cases hreturned.symm.trans hnone

end FileChecker

end Lintmark
