/-
All or nothing.  Output that lists some elements gives their issues in order if
each element alone gives one, and otherwise none.  That is the same for both
shapes of output.
-/
import Lintmark.Proofs.Issue.Outputs

namespace Lintmark

open Json (Value PaddedText Separated depthLimit)

/-- The two shapes of output. -/
inductive OutputShape where
  | bare
  | comments

namespace OutputShape

def opening : OutputShape → String
  | bare => "["
  | comments => "\x7b\"comments\":["

def closing : OutputShape → String
  | bare => "]"
  | comments => "]\x7d"

/-- The output that lists the texts of some elements. -/
def output (shape : OutputShape) (es : List String) : String :=
  shape.opening ++ ",".intercalate es ++ shape.closing

/-- How many lists and objects stand around an element. -/
def levels : OutputShape → Nat
  | bare => 1
  | comments => 2

def value (vs : List Value) : OutputShape → Value
  | bare => .array vs
  | comments => .object [("comments", .array vs)]

variable {shape : OutputShape} {vs : List Value} {es : List String}
  {issues : List Issue} {n : Nat}

theorem levels_pos (shape : OutputShape) : 0 < shape.levels := by
  cases shape <;> decide

theorem value_within (shape : OutputShape) (h : ∀ v ∈ vs, v.Within n) :
    (shape.value vs).Within (n + shape.levels) := by
  cases shape with
  | bare => exact h
  | comments =>
      intro m hm
      obtain rfl := List.mem_singleton.1 hm
      exact h

theorem separated_intercalate
    (h : List.Forall₂ (fun (v : Value) (e : String) => PaddedText v e.toList) vs es) :
    Separated PaddedText vs (",".intercalate es).toList := by
  rw [String.toList_intercalate]
  induction h with
  | nil => exact .none Json.Space.nil
  | @cons v e vs es he hes ih =>
      cases hes with
      | nil =>
          rw [List.map_singleton, List.intercalate_singleton]
          exact .one he
      | cons _ _ =>
          rw [List.map_cons, List.map_cons, List.intercalate_cons_cons, List.append_assoc]
          exact .more he ih

theorem output_text
    (h : List.Forall₂ (fun (v : Value) (e : String) => PaddedText v e.toList) vs es) :
    PaddedText (shape.value vs) (shape.output es).toList := by
  have harray := PaddedText.plain (Json.ValueText.array (separated_intercalate h))
  rw [output, String.toList_append, String.toList_append]
  cases shape with
  | bare => exact harray
  | comments =>
      have hobject := PaddedText.plain (Json.ValueText.object
        (.one (.plain "comments" (by decide) harray)))
      simpa [opening, closing, value] using hobject

theorem ofOutput?_value (shape : OutputShape) (vs : List Value) :
    Issue.ofOutput? (shape.value vs) = vs.mapM Issue.ofValue? := by
  cases shape <;> rfl

/-- Output is read from its elements. -/
theorem parseIssues_output
    (h : List.Forall₂ (fun (v : Value) (e : String) => PaddedText v e.toList) vs es)
    (hwithin : ∀ v ∈ vs, v.Within (depthLimit - 1 - shape.levels)) :
    parseIssues (shape.output es) =
      issuesOr (shape.output es) (vs.mapM Issue.ofValue?) := by
  have hlevels : depthLimit - 1 - shape.levels + shape.levels = depthLimit - 1 := by
    cases shape <;> rfl
  have hvalue := value_within shape hwithin
  rw [hlevels] at hvalue
  rw [parseIssues_of_document (output_text h) hvalue, ofOutput?_value]

/-- An element alone is read as what it decodes to. -/
theorem parseIssues_single {e : String} {v : Value} (h : PaddedText v e.toList)
    (hwithin : v.Within (depthLimit - 2)) :
    parseIssues (bare.output [e]) =
      issuesOr (bare.output [e]) ((Issue.ofValue? v).map ([·])) := by
  have hforall : ∀ v' ∈ [v], v'.Within (depthLimit - 1 - bare.levels) := by
    intro v' hv'
    obtain rfl := List.mem_singleton.1 hv'
    exact hwithin
  rw [parseIssues_output (.cons h .nil) hforall]
  cases hvalue : Issue.ofValue? v <;> simp [hvalue]

theorem encodes_of_single
    (h : List.Forall₂
      (fun v e => PaddedText v (String.toList e) ∧ v.Within (depthLimit - 2)) vs es)
    (hread : List.Forall₂ (fun e i => parseIssues (bare.output [e]) = .ok [i]) es issues) :
    List.Forall₂ Issue.Encodes issues vs := by
  induction h generalizing issues with
  | nil =>
      cases hread
      exact .nil
  | @cons v e vs es hv hvs ih =>
      cases hread with
      | @cons _ i _ issues hi hissues =>
          refine .cons (Issue.ofValue?_eq_some_iff.1 ?_) (ih hissues)
          rw [parseIssues_single hv.1 hv.2, issuesOr_eq_ok_iff] at hi
          simpa using hi

end OutputShape

/-- The values that a field may have: a number that is whole, not negative and
below 2^64, or a string, and for a code either of them or null. -/
def IssueField.Admits : IssueField → Value → Prop
  | .line, .number (.natural _) => True
  | .endLine, .number (.natural _) => True
  | .column, .number (.natural _) => True
  | .endColumn, .number (.natural _) => True
  | .level, .string _ => True
  | .message, .string _ => True
  | .code, .number (.natural _) => True
  | .code, .string _ => True
  | .code, .null => True
  | _, _ => False

theorem Content.Written.admits {i : Issue} {f : IssueField} {v : Value}
    (h : (i.content f).Written v) : f.Admits v := by
  cases f <;> (generalize hc : Issue.content i _ = c at h; cases h) <;> trivial

/-- A field comes twice, or has a value that is not of its type. -/
def Issue.Faulty (ms : List (String × Value)) : Prop :=
  (∃ f : IssueField, 1 < (ms.map Prod.fst).count f.name) ∨
    ∃ f v, (IssueField.name f, v) ∈ ms ∧ ¬ f.Admits v

theorem Issue.ofValue?_faulty {ms : List (String × Value)} (h : Issue.Faulty ms) :
    Issue.ofValue? (.object ms) = none := by
  apply Option.eq_none_iff_forall_ne_some.2
  intro i hi
  obtain ⟨honce, hwritten, -⟩ := Issue.ofValue?_object_iff.1 hi
  rcases h with ⟨f, htwice⟩ | ⟨f, v, hmem, hadmits⟩
  · exact absurd (honce f) (Nat.not_le.2 htwice)
  · exact hadmits (hwritten f v hmem).admits

theorem exists_forall₂ {α β : Type} {R : α → β → Prop} {bs : List β}
    (h : ∀ b ∈ bs, ∃ a, R a b) : ∃ as, List.Forall₂ R as bs := by
  induction bs with
  | nil => exact ⟨[], .nil⟩
  | cons b bs ih =>
      obtain ⟨a, ha⟩ := h b List.mem_cons_self
      obtain ⟨as, has⟩ := ih fun c hc => h c (List.mem_cons_of_mem b hc)
      exact ⟨a :: as, .cons ha has⟩

theorem exists_mem_of_forall₂ {α β : Type} {R : α → β → Prop} {as : List α} {bs : List β}
    {b : β} (h : List.Forall₂ R as bs) (hb : b ∈ bs) : ∃ a ∈ as, R a b := by
  induction h with
  | nil => exact absurd hb List.not_mem_nil
  | @cons a c as bs ha _ ih =>
      rcases List.mem_cons.1 hb with rfl | hb
      · exact ⟨a, List.mem_cons_self, ha⟩
      · obtain ⟨a', hmem, ha'⟩ := ih hb
        exact ⟨a', List.mem_cons_of_mem a hmem, ha'⟩

theorem Issue.mapM_ofValue?_none {vs : List Value} {v : Value} (hv : v ∈ vs)
    (h : Issue.ofValue? v = none) : vs.mapM Issue.ofValue? = none := by
  apply Option.eq_none_iff_forall_ne_some.2
  intro issues hissues
  obtain ⟨i, -, hi⟩ := exists_mem_of_forall₂ (Issue.mapM_ofValue?_iff.1 hissues) hv
  rw [Issue.ofValue?_eq_some_iff.2 hi] at h
  cases h

/-- In either shape, output gives the issues of its elements in order if each
element alone gives one.  An element that is rejected alone, or that is an object
with a faulty field, has the whole output rejected, which the error keeps word for
word. -/
theorem parseIssues_all_or_nothing (shape : OutputShape) (es : List String)
    (hes : ∀ e ∈ es, ∃ v, PaddedText v e.toList ∧
      v.Within (depthLimit - 1 - shape.levels)) :
    (∀ issues, List.Forall₂
        (fun e i => parseIssues (OutputShape.bare.output [e]) = .ok [i]) es issues →
      parseIssues (shape.output es) = .ok issues) ∧
    (∀ e ∈ es, ∀ error, parseIssues (OutputShape.bare.output [e]) = .error error →
      parseIssues (shape.output es) = .error ⟨shape.output es, .mismatch⟩) ∧
    ∀ e ∈ es, ∀ ms, PaddedText (.object ms) e.toList → Issue.Faulty ms →
      parseIssues (shape.output es) = .error ⟨shape.output es, .mismatch⟩ := by
  -- The values of the elements decide all three cases.
  obtain ⟨vs, hvs⟩ := exists_forall₂ hes
  have htexts := hvs.imp fun _ _ h => h.1
  have hwithin : ∀ v ∈ vs, v.Within (depthLimit - 1 - shape.levels) := by
    intro v hv
    have hflip := List.Forall₂.flip (R := flip _) hvs
    obtain ⟨e, -, he⟩ := exists_mem_of_forall₂ hflip hv
    exact he.2
  have hlevels : depthLimit - 1 - shape.levels ≤ depthLimit - 2 := by
    have hpos := shape.levels_pos
    omega
  have houtput := OutputShape.parseIssues_output htexts hwithin
  have hrejected {v : Value} (hv : v ∈ vs) (h : Issue.ofValue? v = none) :
      parseIssues (shape.output es) = .error ⟨shape.output es, .mismatch⟩ := by
    rw [houtput, issuesOr_eq_error_iff]
    exact ⟨Issue.mapM_ofValue?_none hv h, rfl⟩
  refine ⟨?_, ?_, ?_⟩
  · intro issues hissues
    have hsingle := hvs.imp fun _ _ h => And.intro h.1 (h.2.mono hlevels)
    have hencodes := OutputShape.encodes_of_single hsingle hissues
    rw [houtput, issuesOr_eq_ok_iff]
    exact Issue.mapM_ofValue?_iff.2 hencodes
  · intro e he error herror
    obtain ⟨v, hv, htext, hnested⟩ := exists_mem_of_forall₂ hvs he
    apply hrejected hv
    rw [OutputShape.parseIssues_single htext (hnested.mono hlevels),
      issuesOr_eq_error_iff] at herror
    simpa using herror.1
  · intro e he ms hobject hfaulty
    obtain ⟨v, hv, htext, -⟩ := exists_mem_of_forall₂ hvs he
    obtain rfl := htext.unique hobject
    exact hrejected hv (Issue.ofValue?_faulty hfaulty)

/-- Two elements that are issues, an element that is none, and an element that
gives its line twice. -/
theorem parseIssues_all_or_nothing_of_line_twice :
    parseIssues (OutputShape.comments.output ["\x7b\"line\":1\x7d", "\x7b\x7d"]) =
      .ok [{ line := 1 }, {}] ∧
    parseIssues (OutputShape.bare.output ["\x7b\x7d", "null"]) =
      .error ⟨OutputShape.bare.output ["\x7b\x7d", "null"], .mismatch⟩ ∧
    parseIssues (OutputShape.comments.output
        ["\x7b\x7d", "\x7b\"line\":1,\"line\":1\x7d"]) =
      .error ⟨OutputShape.comments.output
        ["\x7b\x7d", "\x7b\"line\":1,\"line\":1\x7d"], .mismatch⟩ := by
  have hone : PaddedText (.number (.natural 1)) ['1'] :=
    .plain (.number (.natural (by decide)))
  have hempty : PaddedText (.object []) "\x7b\x7d".toList :=
    .plain (.object (.none Json.Space.nil))
  have hline : PaddedText (.object [("line", .number (.natural 1))])
      "\x7b\"line\":1\x7d".toList :=
    .plain (.object (.one (.plain "line" (by decide) hone)))
  have htwice : PaddedText
      (.object [("line", .number (.natural 1)), ("line", .number (.natural 1))])
      "\x7b\"line\":1,\"line\":1\x7d".toList :=
    .plain (.object (.more (.plain "line" (by decide) hone)
      (.one (.plain "line" (by decide) hone))))
  have hnull : PaddedText .null "null".toList := .plain .null
  have hwithin {ms : List (String × Value)} {n : Nat}
      (h : ∀ m ∈ ms, m.2 = .number (.natural 1)) :
      (Value.object ms).Within (n + 1) := by
    intro m hm
    rw [h m hm]
    simp [Value.Within]
  refine ⟨?_, ?_, ?_⟩
  · refine (parseIssues_all_or_nothing .comments _ ?_).1 _ (.cons ?_ (.cons ?_ .nil))
    · simp only [List.forall_mem_cons]
      exact ⟨⟨_, hline, hwithin (by simp)⟩, ⟨_, hempty, hwithin (by simp)⟩, by simp⟩
    · exact OutputShape.parseIssues_single hline (hwithin (by simp))
    · exact OutputShape.parseIssues_single hempty (hwithin (by simp))
  · refine (parseIssues_all_or_nothing .bare _ ?_).2.1 "null" (by simp)
      ⟨OutputShape.bare.output ["null"], .mismatch⟩ ?_
    · simp only [List.forall_mem_cons]
      exact ⟨⟨_, hempty, hwithin (by simp)⟩, ⟨_, hnull, trivial⟩, by simp⟩
    · exact OutputShape.parseIssues_single hnull trivial
  · refine (parseIssues_all_or_nothing .comments _ ?_).2.2 _ (by simp) _ htwice
      (Or.inl ⟨.line, by decide⟩)
    simp only [List.forall_mem_cons]
    exact ⟨⟨_, hempty, hwithin (by simp)⟩, ⟨_, htwice, hwithin (by simp)⟩, by simp⟩

end Lintmark
