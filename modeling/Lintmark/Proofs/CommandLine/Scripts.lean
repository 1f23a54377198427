/-
Which files a check touches.  Without the option for all files it is the check of the
shell scripts among them, and nothing happens to the others: no worker starts on them, and
what they hold and what the linter would say about them makes no difference.
-/
import Lintmark.Proofs.Check.Workers
import Lintmark.Proofs.CommandLine.ExitStatus
import Lintmark.Proofs.Path.Extension

namespace Lintmark

def Worker.path : Worker → Path
  | started _ path => path
  | asking _ path _ => path
  | ended report => report.path
  | lost path => path

theorem Worker.Step.path_eq {c : FileChecker} {w w' : Worker} (h : Worker.Step c w w') :
    w'.path = w.path := by
  cases h <;> rfl

namespace Crew

variable {c : FileChecker} {s s' : Crew} {n : Nat}

/-- The files that have a worker or wait for one. -/
def pathsLeft (s : Crew) : List Path :=
  s.workers.map Worker.path ++ (s.idle ++ s.waiting.flatten).map Prod.fst

theorem Step.pathsLeft_sublist (h : Step c s s') : s'.pathsLeft.Sublist s.pathsLeft := by
  cases h with
  | spawn => simp [pathsLeft, Worker.path]
  | work h => simp [pathsLeft, h.path_eq]
  | join => simp [pathsLeft]
  | lose => simp [pathsLeft]
  | next h => simp [pathsLeft]

theorem Run.pathsLeft_sublist (h : Run c s n s') : s'.pathsLeft.Sublist s.pathsLeft := by
  induction h with
  | refl => exact List.Sublist.refl _
  | step _ hstep ih => exact hstep.pathsLeft_sublist.trans ih

theorem pathsLeft_start (jobs : Nat) (paths : List Path) :
    (start jobs paths).pathsLeft = paths := by
  simp [start, pathsLeft, flatten_chunks]

/-- Workers start on no other files than those given. -/
theorem Run.path_mem {jobs : Nat} {paths : List Path} (h : Run c (start jobs paths) n s) :
    ∀ w ∈ s.workers, w.path ∈ paths := by
  intro w hw
  have hleft : w.path ∈ s.pathsLeft :=
    List.mem_append_left _ (List.mem_map_of_mem hw)
  rw [← pathsLeft_start jobs paths]
  exact h.pathsLeft_sublist.subset hleft

end Crew

theorem FileChecker.checkAll_congr {c c' : FileChecker} {paths : List Path}
    (h : ∀ k path, paths[k]? = some path → c.SameFor c' k path) (jobs : Nat) :
    c'.checkAll jobs paths = c.checkAll jobs paths := by
  have hsame : ∀ files ∈ chunks jobs paths.zipIdx, c'.checkEach files = c.checkEach files := by
    intro files hfiles
    refine List.map_congr_left fun file hfile => ?_
    have hmem : file ∈ paths.zipIdx := by
      rw [← flatten_chunks jobs paths.zipIdx]
      exact List.mem_flatten_of_mem hfiles hfile
    exact (h _ _ (List.mem_zipIdx_iff_getElem?.mp hmem)).check_eq
  rw [checkAll, checkAll, List.map_congr_left hsame]

namespace CommandLine

namespace Machine

variable {m m' : Machine} {s : Settings} {files : List Path} {format : Format}
  {allFiles : Bool}

/-- Two machines agree on some files.  Everything else may differ: what stands in other
files and whether they are there, and what comes of the linter where it is asked about
them. -/
structure AgreesOn (m m' : Machine) (s : Settings) (paths : List Path) : Prop where
  jobs : m'.jobs = m.jobs
  problem : m'.executableProblem? s = m.executableProblem? s
  same : ∀ k path, paths[k]? = some path → (m.checker s).SameFor (m'.checker s) k path

/-- Under the same settings a check depends on the executable and on what comes of
checking the kept files. -/
theorem check_congr {files' : List Path} {allFiles' : Bool}
    (hsame : m'.executableProblem? s = m.executableProblem? s)
    (hall : (m'.checker s).checkAll m'.jobs (kept files' allFiles') =
      (m.checker s).checkAll m.jobs (kept files allFiles)) :
    m'.check s files' format allFiles' = m.check s files format allFiles := by
  cases henabled : s.enabled with
  | false => rw [check_of_disabled henabled, check_of_disabled henabled]
  | true =>
      cases hproblem : m.executableProblem? s with
      | some problem =>
          rw [check_of_problem henabled hproblem,
            check_of_problem henabled (hsame.trans hproblem)]
      | none =>
          rw [check_of_enabled henabled hproblem,
            check_of_enabled henabled (hsame.trans hproblem), hall]

theorem check_of_agreesOn (h : m.AgreesOn m' s (kept files allFiles)) :
    m'.check s files format allFiles = m.check s files format allFiles := by
  apply check_congr h.problem
  rw [h.jobs, FileChecker.checkAll_congr h.same m.jobs]

theorem kept_true (files : List Path) : kept files true = files :=
  List.filter_true files

theorem check_of_kept :
    m.check s (kept files allFiles) format true = m.check s files format allFiles := by
  apply check_congr rfl
  rw [kept_true]

/-- A check without the option for all files is a check of the scripts among them: the
files whose last component is a stem with an ending of shell scripts.  Of machines that
agree on the scripts it shows the same.  It hands the scripts to the workers; however they
take turns, they start on scripts only, and what they return is what the check shows.  A
directory in front of an ordinary name does not make a script of a file, nor does it make it
none. -/
theorem check_scripts (m : Machine) (s : Settings) (files : List Path) (format : Format) :
    let scripts := files.filter Path.isShellScript
    (∀ path : Path, path.isShellScript ↔ path.IsScript) ∧
      m.check s files format false = m.check s scripts format true ∧
      (∀ m', m.AgreesOn m' s scripts →
        m'.check s files format false = m.check s files format false) ∧
      (s.enabled → m.executableProblem? s = none →
        m.check s files format false =
            ((m.checker s).checkAll m.jobs scripts).map (.shown format) ∧
          ∀ n crew, Crew.Run (m.checker s) (Crew.start m.jobs scripts) n crew →
            (∀ w ∈ crew.workers, w.path ∈ scripts) ∧
              ∀ result, crew.returned? = some result →
                m.check s files format false = result.map (.shown format)) ∧
      ∀ (dir path : Path) (name : List Char), path.LastName name →
        ((dir.join path).IsScript ↔ path.IsScript) := by
  refine ⟨fun path => Path.isShellScript_iff, check_of_kept.symm, ?_, ?_, ?_⟩
  · intro m' hagrees
    exact check_of_agreesOn hagrees
  · intro henabled hproblem
    have hcheck : m.check s files format false =
        ((m.checker s).checkAll m.jobs (files.filter Path.isShellScript)).map (.shown format) :=
      check_of_enabled henabled hproblem
    refine ⟨hcheck, fun n crew hrun => ⟨hrun.path_mem, ?_⟩⟩
    intro result hreturned
    rw [hcheck, hrun.checkAll_eq hreturned]
  · intro dir path name hname
    rw [Path.isScript_iff_of_lastName (hname.join dir), Path.isScript_iff_of_lastName hname]

/-- Of three files one is a script, and its error is all that is shown.  The notes may as
well hold bytes that are no text, and a directory in front of the script changes nothing. -/
theorem check_scripts_workshop :
    let files : List Path := [⟨"notes.txt"⟩, ⟨"./run.sh"⟩, ⟨".sh"⟩]
    let notes := workshop.files.put ["work".toList, "notes.txt".toList] (.file 0o644 [255])
    let untidy := { workshop with
      files := notes, read := fun _ path => notes.readText workshop.dir path }
    let outcome : Outcome :=
      { exit := failure, stdout := "./run.sh:1:1: error:  [none]\n", stderr := "" }
    workshop.check {} files .human false = .ends outcome ∧
      workshop.check {} [⟨"./run.sh"⟩] .human true = .ends outcome ∧
      untidy.check {} files .human false = .ends outcome ∧
      ((⟨"work/"⟩ : Path).join ⟨"./run.sh"⟩).IsScript := by
  intro files notes untidy outcome
  obtain ⟨hscript, hkept, hothers, hcrew, hdir⟩ := check_scripts workshop {} files .human
  have hscripts : files.filter Path.isShellScript = [⟨"./run.sh"⟩] := by decide +kernel
  have hname : (⟨"./run.sh"⟩ : Path).LastName "run.sh".toList :=
    Path.fileName?_eq_some_iff.mp (by decide +kernel)
  have hread : notes.readText ["work".toList] ⟨"./run.sh"⟩ =
      workshop.files.readText ["work".toList] ⟨"./run.sh"⟩ := by decide +kernel
  have hagrees : workshop.AgreesOn untidy {} [⟨"./run.sh"⟩] := by
    refine ⟨rfl, rfl, fun k path hpath => ?_⟩
    obtain rfl := List.mem_singleton.mp (List.mem_of_getElem? hpath)
    exact ⟨rfl, rfl, hread, fun _ => rfl⟩
  have hchunk : chunks 2 [(⟨"./run.sh"⟩ : Path)].zipIdx = [[(⟨"./run.sh"⟩, 0)]] := by
    simp [chunks]
  have hreport : ((workshop.checker {}).checkAll 2 [⟨"./run.sh"⟩]).map (Outcome.shown .human) =
      .ends { exit := failure, stdout := "./run.sh:1:1: error:  [none]\n" } := by
    rw [FileChecker.checkAll, hchunk]
    decide +kernel
  rw [hscripts] at hkept hothers hcrew
  have hshown : workshop.check {} files .human false = .ends outcome :=
    (hcrew rfl rfl).1.trans hreport
  refine ⟨hshown, hkept.symm.trans hshown, (hothers untidy hagrees).trans hshown, ?_⟩
  exact (hdir _ _ _ hname).mpr ((hscript _).mp (by decide +kernel))

end Machine

end CommandLine

end Lintmark
