/-
The lines of the text for people.  Each annotation has a line of its own as long
as its message is on one line.  A message that goes over several lines, which the
linter can make it do, gives as many lines.
-/
import Mathlib.Algebra.BigOperators.Group.List.Basic
import Mathlib.Algebra.GroupWithZero.Nat
import Lintmark.Report
import Lintmark.Proofs.Annotation.Placement

namespace Lintmark

/-- A text is made of lines: it is these lines, each with a line feed behind it and
none inside. -/
structure MadeOf (text : String) (lines : List String) : Prop where
  text_eq : text = unlines lines
  noFeed : ∀ line ∈ lines, '\n' ∉ line.toList

theorem toList_unlines (lines : List String) :
    (unlines lines).toList = lines.flatMap fun line => line.toList ++ ['\n'] := by
  simp [unlines, String.toList_join, List.flatMap_map]

theorem madeOf_unlines_iff {lines : List String} :
    MadeOf (unlines lines) lines ↔ ∀ line ∈ lines, '\n' ∉ line.toList :=
  ⟨MadeOf.noFeed, fun h => ⟨rfl, h⟩⟩

/-- Splitting at line feeds gives the lines back, and the nothing behind the last feed. -/
theorem splitOn_unlines {lines : List String} (h : ∀ line ∈ lines, '\n' ∉ line.toList) :
    (unlines lines).toList.splitOn '\n' = lines.map String.toList ++ [[]] := by
  rw [toList_unlines]
  induction lines with
  | nil => rfl
  | cons line lines ih =>
      obtain ⟨hline, hlines⟩ := List.forall_mem_cons.mp h
      rw [List.flatMap_cons, List.append_assoc, List.singleton_append,
        List.splitOn_append_cons_self_of_not_mem hline, ih hlines, List.map_cons,
        List.cons_append]

/-- A text is made of lines in one way only. -/
theorem MadeOf.unique {text : String} {lines lines' : List String}
    (h : MadeOf text lines) (h' : MadeOf text lines') : lines = lines' := by
  have hsplit := splitOn_unlines h.noFeed
  rw [← h.text_eq, h'.text_eq, splitOn_unlines h'.noFeed] at hsplit
  exact (List.map_injective_iff.mpr (fun _ _ => String.toList_injective)
    (List.append_cancel_right hsplit)).symm

theorem feed_notMem_of_mem_splitOn {cs : List Char} :
    ∀ p ∈ cs.splitOn '\n', '\n' ∉ p := by
  induction cs with
  | nil => simp
  | cons c cs ih =>
      rw [List.splitOn_cons_eq_if_modifyHead]
      obtain ⟨p, ps, hsplit⟩ := List.exists_cons_of_ne_nil (List.splitOn_ne_nil '\n' cs)
      rw [hsplit] at ih ⊢
      split
      · exact List.forall_mem_cons.mpr ⟨List.not_mem_nil, ih⟩
      · rename_i hc
        obtain ⟨hp, hps⟩ := List.forall_mem_cons.mp ih
        refine List.forall_mem_cons.mpr ⟨?_, hps⟩
        rw [List.mem_cons, not_or]
        exact ⟨fun hfeed => hc (beq_iff_eq.mpr hfeed.symm), hp⟩

/-- The pieces between the line feeds, each with a line feed behind it, are the text with
one behind it. -/
theorem flatMap_splitOn (cs : List Char) :
    (cs.splitOn '\n').flatMap (· ++ ['\n']) = cs ++ ['\n'] := by
  induction cs with
  | nil => rfl
  | cons c cs ih =>
      rw [List.splitOn_cons_eq_if_modifyHead]
      split
      · rename_i hc
        rw [List.flatMap_cons, ih, beq_iff_eq.mp hc]
        rfl
      · obtain ⟨p, ps, hsplit⟩ :=
          List.exists_cons_of_ne_nil (List.splitOn_ne_nil '\n' cs)
        rw [hsplit, List.flatMap_cons] at ih
        rw [hsplit, List.modifyHead_cons, List.flatMap_cons, List.cons_append,
          List.cons_append, ih, List.cons_append]

/-- There is one piece more than there are line feeds. -/
theorem length_splitOn (cs : List Char) :
    (cs.splitOn '\n').length = cs.count '\n' + 1 := by
  have hone : ∀ p ∈ cs.splitOn '\n', (p ++ ['\n']).count '\n' = 1 := by
    intro p hp
    rw [List.count_append, List.count_eq_zero.mpr (feed_notMem_of_mem_splitOn p hp),
      List.count_singleton_self]
  calc (cs.splitOn '\n').length
      = ((cs.splitOn '\n').map fun p => (p ++ ['\n']).count '\n').sum := by
        rw [List.map_congr_left hone, List.map_const', List.sum_replicate_nat,
          Nat.mul_one]
    _ = ((cs.splitOn '\n').flatMap (· ++ ['\n'])).count '\n' := by
        rw [List.count_flatMap]
        rfl
    _ = cs.count '\n' + 1 := by
        rw [flatMap_splitOn, List.count_append, List.count_singleton_self]

/-- The lines that a line makes when it is written out. -/
def linesOf (line : String) : List String :=
  (line.toList.splitOn '\n').map String.ofList

/-- What is written out line by line is made of the lines that these make. -/
theorem madeOf_linesOf (lines : List String) :
    MadeOf (unlines lines) (lines.flatMap linesOf) where
  text_eq := by
    apply String.toList_inj.mp
    rw [toList_unlines, toList_unlines, List.flatMap_assoc]
    refine congrArg (lines.flatMap ·) (funext fun line => ?_)
    rw [linesOf, List.flatMap_map]
    simp only [String.toList_ofList]
    exact (flatMap_splitOn line.toList).symm
  noFeed := by
    intro piece hpiece
    obtain ⟨line, -, hline⟩ := List.mem_flatMap.mp hpiece
    obtain ⟨p, hp, rfl⟩ := List.mem_map.mp hline
    rw [String.toList_ofList]
    exact feed_notMem_of_mem_splitOn p hp

theorem length_linesOf (line : String) :
    (linesOf line).length = line.toList.count '\n' + 1 := by
  rw [linesOf, List.length_map, length_splitOn]

theorem length_flatMap_linesOf (lines : List String) :
    (lines.flatMap linesOf).length =
      lines.length + (lines.map (·.toList.count '\n')).sum := by
  induction lines with
  | nil => rfl
  | cons line lines ih =>
      rw [List.flatMap_cons, List.length_append, ih, length_linesOf, List.map_cons,
        List.sum_cons, List.length_cons]
      omega

theorem feed_notMem_decimal (n : Nat) : '\n' ∉ (toString n).toList := by
  rw [Nat.toString_eq_ofList_toDigits, String.toList_ofList]
  intro hmem
  exact absurd (Nat.isDigit_of_mem_toDigits (by decide) (by decide) hmem) (by decide)

theorem feed_notMem_label (s : Severity) : '\n' ∉ s.label.toList := by
  cases s <;> decide

/-- Only the path and the message put line feeds into a line. -/
theorem count_humanLine (path : Path) (d : Document) (a : Annotation) :
    (humanLine path d a).toList.count '\n' =
      path.text.toList.count '\n' + a.message.toList.count '\n' := by
  have hnumber (n : Nat) : (toString n).toList.count '\n' = 0 :=
    List.count_eq_zero.mpr (feed_notMem_decimal n)
  have hlabel : a.severity.label.toList.count '\n' = 0 :=
    List.count_eq_zero.mpr (feed_notMem_label a.severity)
  simp only [humanLine, String.toList_append, List.count_append, hnumber, hlabel]
  rfl

/-- A message has the line feeds that are left in the trimmed message of its issue and
those of its code. -/
theorem feed_mem_formatted_iff (i : Issue) :
    '\n' ∈ i.formatted.toList ↔
      '\n' ∈ (Text.trim i.message).toList ∨ ∃ code ∈ i.code, '\n' ∈ code.toList := by
  cases hcode : i.code with
  | none => simp [Issue.formatted, Issue.displayCode, hcode]
  | some code => simp [Issue.formatted, Issue.displayCode, hcode]

variable {reports : List FileReport}

/-- The lines of all annotations, report by report. -/
def humanLines (reports : List FileReport) : List String :=
  reports.flatMap fun r => r.annotations.map (humanLine r.path r.document)

def allAnnotations (reports : List FileReport) : List Annotation :=
  reports.flatMap FileReport.annotations

theorem humanText_eq (reports : List FileReport) :
    humanText reports = unlines (humanLines reports) :=
  rfl

theorem length_humanLines (reports : List FileReport) :
    (humanLines reports).length = (allAnnotations reports).length := by
  simp [humanLines, allAnnotations, List.length_flatMap]

/-- Line by line, the feeds in the lines are those in the messages. -/
theorem map_count_humanLines (hpaths : ∀ r ∈ reports, '\n' ∉ r.path.text.toList) :
    (humanLines reports).map (·.toList.count '\n') =
      (allAnnotations reports).map (·.message.toList.count '\n') := by
  induction reports with
  | nil => rfl
  | cons r reports ih =>
      obtain ⟨hpath, hrest⟩ := List.forall_mem_cons.mp hpaths
      have hnone : r.path.text.toList.count '\n' = 0 := List.count_eq_zero.mpr hpath
      have hlines : (r.annotations.map (humanLine r.path r.document)).map
          (·.toList.count '\n') = r.annotations.map (·.message.toList.count '\n') := by
        rw [List.map_map]
        refine List.map_congr_left fun a _ => ?_
        rw [Function.comp_apply, count_humanLine, hnone, Nat.zero_add]
      have ih := ih hrest
      rw [humanLines] at ih ⊢
      rw [List.flatMap_cons, List.map_append, hlines, ih, allAnnotations, allAnnotations,
        List.flatMap_cons, List.map_append]

/-- No line has a line feed exactly when no message has one. -/
theorem feed_notMem_humanLines_iff
    (hpaths : ∀ r ∈ reports, '\n' ∉ r.path.text.toList) :
    (∀ line ∈ humanLines reports, '\n' ∉ line.toList) ↔
      ∀ a ∈ allAnnotations reports, '\n' ∉ a.message.toList := by
  simp only [← List.count_eq_zero]
  rw [← List.forall_mem_map (f := fun line : String => line.toList.count '\n')
    (P := (· = 0)), map_count_humanLines hpaths, List.forall_mem_map]

/-- The annotations of a report are those of some issues, in the order of the issues. -/
def FileReport.Annotates (r : FileReport) (issues : List Issue) : Prop :=
  ∃ o, r.annotations = r.document.annotations o issues

/-- An issue whose message is on one line once its ends are trimmed. -/
def Issue.OneLine (i : Issue) : Prop :=
  '\n' ∉ (Text.trim i.message).toList ∧ ∀ code ∈ i.code, '\n' ∉ code.toList

theorem Issue.oneLine_iff (i : Issue) : i.OneLine ↔ '\n' ∉ i.formatted.toList := by
  rw [feed_mem_formatted_iff, not_or, OneLine]
  simp only [not_exists, not_and]

/-- The messages of a report are on one line exactly when the issues that fit are. -/
theorem FileReport.Annotates.oneLine_iff {r : FileReport} {issues : List Issue}
    (h : r.Annotates issues) :
    (∀ a ∈ r.annotations, '\n' ∉ a.message.toList) ↔
      ∀ i ∈ issues, i.Fits r.document → i.OneLine := by
  obtain ⟨o, hannotations⟩ := h
  rw [hannotations]
  constructor
  · intro hmessages i hi hfits
    have hshown := Document.annotate?_of_fits hfits o
    have hmessage := hmessages _ (List.mem_filterMap.mpr ⟨i, hi, hshown⟩)
    exact i.oneLine_iff.mpr hmessage
  · intro hissues a ha
    obtain ⟨i, hi, hshown⟩ := List.mem_filterMap.mp ha
    have hfits := Document.fits_of_annotate? hshown
    rw [Document.annotate?_of_fits hfits, Option.some_inj] at hshown
    have hmessage := i.oneLine_iff.mp (hissues i hi hfits)
    rwa [← hshown]

/-- The text for people consists of the lines that its annotations make: one for each
annotation and one more for each line feed in a message.  So there is one line for each
annotation exactly when all issues that fit have their message and code on one line. -/
theorem humanText_lines {issuesOf : FileReport → List Issue}
    (hpaths : ∀ r ∈ reports, '\n' ∉ r.path.text.toList)
    (hissues : ∀ r ∈ reports, r.Annotates (issuesOf r)) :
    (∀ lines, MadeOf (humanText reports) lines ↔
      lines = (humanLines reports).flatMap linesOf) ∧
    ((humanLines reports).flatMap linesOf).length =
      (allAnnotations reports).length +
        ((allAnnotations reports).map (·.message.toList.count '\n')).sum ∧
    (MadeOf (humanText reports) (humanLines reports) ↔
      ∀ r ∈ reports, ∀ i ∈ issuesOf r, i.Fits r.document → i.OneLine) := by
  have hlines : MadeOf (humanText reports) ((humanLines reports).flatMap linesOf) :=
    madeOf_linesOf (humanLines reports)
  refine ⟨fun lines => ⟨fun h => h.unique hlines, fun h => h ▸ hlines⟩, ?_, ?_⟩
  · rw [length_flatMap_linesOf, length_humanLines, map_count_humanLines hpaths]
  · rw [humanText_eq, madeOf_unlines_iff, feed_notMem_humanLines_iff hpaths]
    constructor
    · intro hmessages r hr
      apply (hissues r hr).oneLine_iff.mp
      intro a ha
      exact hmessages a (List.mem_flatMap.mpr ⟨r, hr, ha⟩)
    · intro honeLine a ha
      obtain ⟨r, hr, ha⟩ := List.mem_flatMap.mp ha
      exact (hissues r hr).oneLine_iff.mpr (honeLine r hr) a ha

def reportOn (name text : String) (issues : List Issue) : FileReport where
  path := ⟨name⟩
  document := .ofString text
  annotations := (Document.ofString text).annotations {} issues

theorem reportOn_annotates (name text : String) (issues : List Issue) :
    (reportOn name text issues).Annotates issues :=
  ⟨{}, rfl⟩

def threeLineIssues : List Issue := [
  { line := 1, column := 1, level := "error", message := "a\n\nb", code := some "1" }]

/-- Line feeds at the end of a message, and in one that does not fit. -/
def oneLineIssues : List Issue := [
  { line := 1, column := 2, message := "c\n" }, { line := 9, message := "d\ne" }]

theorem humanText_lines_of_message_of_three_lines :
    MadeOf (humanText [reportOn "a.sh" "x\n" threeLineIssues,
        reportOn "b.sh" "fi" oneLineIssues])
      ["a.sh:1:1: error: a", "", "b [SC1]", "b.sh:1:2: info: c [none]"] ∧
    MadeOf (humanText [reportOn "b.sh" "fi" oneLineIssues])
      (humanLines [reportOn "b.sh" "fi" oneLineIssues]) := by
  let issuesOf : FileReport → List Issue := fun r =>
    if r.path.text = "a.sh" then threeLineIssues else oneLineIssues
  have hb : ∀ r ∈ [reportOn "b.sh" "fi" oneLineIssues], r.Annotates (issuesOf r) :=
    List.forall_mem_singleton.mpr (reportOn_annotates ..)
  have hboth : ∀ r ∈ [reportOn "a.sh" "x\n" threeLineIssues,
      reportOn "b.sh" "fi" oneLineIssues], r.Annotates (issuesOf r) :=
    List.forall_mem_cons.mpr ⟨reportOn_annotates .., hb⟩
  obtain ⟨hlines, -, -⟩ := humanText_lines (by decide) hboth
  obtain ⟨-, -, honeLine⟩ := humanText_lines (by decide) hb
  refine ⟨(hlines _).mpr (by decide), honeLine.mpr ?_⟩
  intro r hr i hi hfits
  obtain rfl := List.mem_singleton.mp hr
  have hi : i ∈ oneLineIssues := hi
  rw [oneLineIssues, List.mem_pair] at hi
  rcases hi with rfl | rfl
  · exact ⟨by decide, by decide⟩
  · exact absurd hfits.inside (by decide)

/-- A message of two lines comes out as two lines. -/
theorem humanText_lines_of_message_of_two_lines :
    ¬ ∀ reports : List FileReport, (∀ r ∈ reports, '\n' ∉ r.path.text.toList) →
      (∀ r ∈ reports, ∃ issues, r.Annotates issues) →
      MadeOf (humanText reports) (humanLines reports) := by
  intro hclaim
  let report := reportOn "a.sh" "x\n" [
    { line := 1, column := 1, level := "info", message := "a\nb" }]
  have hlines := hclaim [report] (by decide)
    (List.forall_mem_singleton.mpr ⟨_, reportOn_annotates ..⟩)
  exact absurd (hlines.noFeed "a.sh:1:1: info: a\nb [none]" (by decide)) (by decide)

end Lintmark
