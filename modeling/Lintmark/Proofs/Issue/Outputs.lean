/-
What output decodes to.  Output is read exactly when it has one of the two
shapes and every value that it lists is an issue, so issues are read back from
every rendering of theirs.
-/
import Mathlib.Data.List.Forall2
import Lintmark.Proofs.Issue.Fields
import Lintmark.Proofs.Json.Printer
import Lintmark.Proofs.Json.Values

namespace Lintmark

open Json (Value Tree PaddedText Space HexDigit HexFour depthLimit)

namespace Issue

variable {v : Value} {ms : List (String × Value)}

theorem mapM_ofValue?_iff {vs : List Value} {issues : List Issue} :
    vs.mapM ofValue? = some issues ↔
      List.Forall₂ Encodes issues vs := by
  induction vs generalizing issues with
  | nil =>
      rw [List.mapM_nil, List.forall₂_nil_right_iff]
      exact Option.some_inj.trans eq_comm
  | cons v vs ih =>
      rw [List.mapM_cons, List.forall₂_cons_right_iff]
      simp only [Option.bind_eq_bind, Option.bind_eq_some_iff, ih, Option.pure_def,
        Option.some_inj, ofValue?_eq_some_iff]
      constructor
      · rintro ⟨i, hi, is, his, rfl⟩
        exact ⟨i, is, hi, his, rfl⟩
      · rintro ⟨i, is, hi, his, rfl⟩
        exact ⟨i, hi, is, his, rfl⟩

theorem listOfValue?_eq_some_iff {issues : List Issue} :
    listOfValue? v = some issues ↔
      ∃ vs, v = .array vs ∧ List.Forall₂ Encodes issues vs := by
  constructor
  · intro h
    rw [listOfValue?.eq_def] at h
    split at h
    · exact ⟨_, rfl, mapM_ofValue?_iff.1 h⟩
    · cases h
  · rintro ⟨vs, rfl, hissues⟩
    exact mapM_ofValue?_iff.2 hissues

/-- The output lists the values: as they are, or as the only member of an object
that is named for comments. -/
inductive Lists (vs : List Value) : Value → Prop where
  | bare : Lists vs (.array vs)
  | comments {before after : List (String × Value)}
      (hbefore : ∀ m ∈ before, m.1 ≠ "comments")
      (hafter : ∀ m ∈ after, m.1 ≠ "comments") :
      Lists vs (.object (before ++ ("comments", .array vs) :: after))

theorem filter_comments_iff {m : String × Value} :
    ms.filter (·.1 == "comments") = [m] ↔
      ∃ before after, ms = before ++ m :: after ∧ m.1 = "comments" ∧
        (∀ m ∈ before, m.1 ≠ "comments") ∧ ∀ m ∈ after, m.1 ≠ "comments" := by
  simp only [List.filter_eq_cons_iff, List.filter_eq_nil_iff, beq_iff_eq]
  constructor
  · rintro ⟨before, after, hms, hbefore, hm, hafter⟩
    exact ⟨before, after, hms, hm, hbefore, hafter⟩
  · rintro ⟨before, after, hms, hm, hbefore, hafter⟩
    exact ⟨before, after, hms, hbefore, hm, hafter⟩

/-- Output decodes to the issues of the values that it lists. -/
theorem ofOutput?_eq_some_iff {issues : List Issue} :
    ofOutput? v = some issues ↔
      ∃ vs, Lists vs v ∧ List.Forall₂ Encodes issues vs := by
  constructor
  · intro h
    rw [ofOutput?.eq_def] at h
    split at h
    · split at h
      · rename_i hfilter
        obtain ⟨before, after, rfl, hname, hbefore, hafter⟩ :=
          filter_comments_iff.1 hfilter
        obtain rfl := hname
        obtain ⟨vs, rfl, hissues⟩ := listOfValue?_eq_some_iff.1 h
        exact ⟨vs, .comments hbefore hafter, hissues⟩
      · cases h
    · obtain ⟨vs, rfl, hissues⟩ := listOfValue?_eq_some_iff.1 h
      exact ⟨vs, .bare, hissues⟩
  · rintro ⟨vs, hvs, hissues⟩
    have hlist := listOfValue?_eq_some_iff.2 ⟨vs, rfl, hissues⟩
    cases hvs with
    | bare => exact hlist
    | @comments before after hbefore hafter =>
        rw [ofOutput?, filter_comments_iff.2 ⟨before, after, rfl, rfl, hbefore, hafter⟩]
        exact hlist

/-- How issues are written: as objects, listed bare or in an object. -/
def Renders (issues : List Issue) (v : Value) : Prop :=
  ∃ mss : List (List (String × Value)),
    Lists (mss.map Value.object) v ∧ List.Forall₂ WrittenBy issues mss

theorem ofOutput?_of_renders {issues : List Issue} (h : Renders issues v) :
    ofOutput? v = some issues := by
  obtain ⟨mss, hlists, hwritten⟩ := h
  apply ofOutput?_eq_some_iff.2
  refine ⟨mss.map Value.object, hlists, ?_⟩
  rw [List.forall₂_map_right_iff]
  exact hwritten.imp fun i ms h => .object h

/-- The members of an issue that is written with all its fields. -/
def members (i : Issue) : List (String × Tree) :=
  [("line", .natural i.line), ("endLine", .natural i.endLine),
    ("column", .natural i.column), ("endColumn", .natural i.endColumn),
    ("level", .string i.level), ("code", i.code.elim .null .string),
    ("message", .string i.message)]

theorem writtenBy_members (i : Issue) : WrittenBy i (Tree.memberValues i.members) := by
  apply ofValue?_object_iff.1
  obtain ⟨line, endLine, column, endColumn, level, code, message⟩ := i
  cases code with
  | none => rfl
  | some s => rfl

theorem members_within (i : Issue) :
    (Value.object (Tree.memberValues i.members)).Within 1 := by
  cases hcode : i.code <;>
    simp [members, Tree.memberValues, Tree.value, Value.Within, hcode]

theorem values_map_members (issues : List Issue) :
    Tree.values (issues.map fun i => .object i.members) =
      (issues.map fun i => Tree.memberValues i.members).map .object := by
  rw [Tree.values_eq_map, List.map_map, List.map_map]
  rfl

theorem allFit_members {issues : List Issue}
    (h : ∀ i ∈ issues, i.line < 2 ^ 64 ∧ i.endLine < 2 ^ 64 ∧ i.column < 2 ^ 64 ∧
      i.endColumn < 2 ^ 64) :
    Tree.AllFit (issues.map fun i => .object i.members) := by
  rw [Tree.allFit_iff, List.forall_mem_map]
  intro i hi
  obtain ⟨hline, hendLine, hcolumn, hendColumn⟩ := h i hi
  refine ⟨hline, hendLine, hcolumn, hendColumn, trivial, ?_, trivial, trivial⟩
  cases i.code <;> trivial

/-- Issues whose numbers have 64 bits are rendered by some text. -/
theorem exists_rendering (issues : List Issue)
    (h : ∀ i ∈ issues, i.line < 2 ^ 64 ∧ i.endLine < 2 ^ 64 ∧ i.column < 2 ^ 64 ∧
      i.endColumn < 2 ^ 64) :
    ∃ v raw, Renders issues v ∧ PaddedText v (String.toList raw) ∧
      v.Within (depthLimit - 1) := by
  refine ⟨_, _, ?_, Tree.text_text (t := .array _) (allFit_members h), ?_⟩
  · rw [Tree.value, values_map_members]
    refine ⟨_, .bare, ?_⟩
    rw [List.forall₂_map_right_iff, List.forall₂_same]
    exact fun i _ => writtenBy_members i
  · rw [Tree.value, values_map_members]
    intro v hv
    simp only [List.mem_map] at hv
    obtain ⟨_, ⟨i, -, rfl⟩, rfl⟩ := hv
    exact (members_within i).mono (by decide)

end Issue

variable {v : Value} {raw : String} {issues : List Issue}

theorem not_allBlank (h : PaddedText v raw.toList) : ¬ Text.allBlank raw := by
  obtain ⟨c, hc, hblank⟩ : ∃ c ∈ raw.toList, ¬ Text.isBlank c := by
    generalize raw.toList = cs at h
    cases h with
    | @padded _ s w s' hs hv hs' =>
        obtain ⟨c, cs, rfl, hblank, -⟩ := hv.head
        exact ⟨c, by simp, hblank⟩
  intro hall
  exact hblank (List.all_eq_true.1 hall c hc)

/-- The issues if there are any, and otherwise the error that keeps the output. -/
def issuesOr (raw : String) : Option (List Issue) → Except OutputError (List Issue)
  | some issues => .ok issues
  | none => .error ⟨raw, .mismatch⟩

theorem issuesOr_eq_ok_iff {found : Option (List Issue)} :
    issuesOr raw found = .ok issues ↔ found = some issues := by
  cases found <;> simp [issuesOr]

theorem issuesOr_eq_error_iff {found : Option (List Issue)} {error : OutputError} :
    issuesOr raw found = .error error ↔ found = none ∧ error = ⟨raw, .mismatch⟩ := by
  cases found <;> simp [issuesOr, eq_comm]

/-- Output that is one JSON value is taken or rejected as that value is. -/
theorem parseIssues_of_document (htext : PaddedText v raw.toList)
    (hwithin : v.Within (depthLimit - 1)) :
    parseIssues raw = issuesOr raw (Issue.ofOutput? v) := by
  obtain ⟨rest, hvalue, hend⟩ := Json.value_document_iff.2 ⟨htext, hwithin⟩
  rw [parseIssues, if_neg (not_allBlank htext), readIssues, hvalue]
  cases houtput : Issue.ofOutput? v with
  | none => simp only [houtput, issuesOr]
  | some issues => simp only [houtput, hend, issuesOr]

/-- Output that is taken is blank or one JSON value. -/
theorem document_of_parseIssues (hraw : ¬ Text.allBlank raw)
    (h : parseIssues raw = .ok issues) :
    ∃ v, PaddedText v raw.toList ∧ v.Within (depthLimit - 1) ∧
      Issue.ofOutput? v = some issues := by
  rw [parseIssues, if_neg hraw, readIssues] at h
  cases hvalue : Json.value raw.toList with
  | error f => simp [hvalue] at h
  | ok read =>
      obtain ⟨v, rest⟩ := read
      cases houtput : Issue.ofOutput? v with
      | none => simp [hvalue, houtput] at h
      | some found =>
          cases hend : Json.atEnd rest with
          | error f => simp [hvalue, houtput, hend] at h
          | ok _ =>
              obtain ⟨htext, hwithin⟩ := Json.value_document_iff.1 ⟨rest, hvalue, hend⟩
              refine ⟨v, htext, hwithin, ?_⟩
              simpa [hvalue, houtput, hend] using h

/-- Output is read exactly when it is blank or one JSON value in which issues are
listed, each as an object or as a list. -/
theorem parseIssues_eq_ok_iff :
    parseIssues raw = .ok issues ↔
      (Text.allBlank raw ∧ issues = []) ∨
        ∃ v vs, PaddedText v raw.toList ∧ v.Within (depthLimit - 1) ∧
          Issue.Lists vs v ∧ List.Forall₂ Issue.Encodes issues vs := by
  constructor
  · intro h
    by_cases hblank : Text.allBlank raw
    · rw [parseIssues, if_pos hblank] at h
      exact Or.inl ⟨hblank, (Except.ok.inj h).symm⟩
    · obtain ⟨v, htext, hwithin, houtput⟩ := document_of_parseIssues hblank h
      obtain ⟨vs, hlists, hencodes⟩ := Issue.ofOutput?_eq_some_iff.1 houtput
      exact Or.inr ⟨v, vs, htext, hwithin, hlists, hencodes⟩
  · rintro (⟨hblank, rfl⟩ | ⟨v, vs, htext, hwithin, hlists, hencodes⟩)
    · rw [parseIssues, if_pos hblank]
    · rw [parseIssues_of_document htext hwithin, issuesOr_eq_ok_iff]
      exact Issue.ofOutput?_eq_some_iff.2 ⟨vs, hlists, hencodes⟩

/-- An empty list stands for an issue with nothing but defaults. -/
theorem parseIssues_not_only_objects :
    ¬ ∀ (raw : String) (issues : List Issue), ¬ Text.allBlank raw →
      parseIssues raw = .ok issues →
        ∃ v vs, PaddedText v raw.toList ∧ Issue.Lists vs v ∧
          ∀ e ∈ vs, ∃ ms, e = .object ms := by
  intro h
  have htext : PaddedText (.array [.array []]) "[[]]".toList := by
    have hinner : PaddedText (.array []) ['[', ']'] := .plain (.array (.none Space.nil))
    exact .plain (.array (.one hinner))
  have hread : parseIssues "[[]]" = .ok [{}] := by
    rw [parseIssues_of_document htext (by simp [Value.Within, depthLimit])]
    rfl
  obtain ⟨v, vs, htext', hlists, hobjects⟩ := h "[[]]" [{}] (by decide) hread
  obtain rfl := htext.unique htext'
  cases hlists with
  | bare =>
      obtain ⟨ms, hms⟩ := hobjects (.array []) List.mem_cons_self
      cases hms

/-- Whatever rendering of issues the linter writes, those issues are read. -/
theorem parseIssues_of_renders (hrenders : Issue.Renders issues v)
    (htext : PaddedText v raw.toList) (hwithin : v.Within (depthLimit - 1)) :
    parseIssues raw = .ok issues := by
  rw [parseIssues_of_document htext hwithin, issuesOr_eq_ok_iff]
  exact Issue.ofOutput?_of_renders hrenders

/-- A pair of surrogates, a name that no field has, the largest number, a code that
is a number, and an issue with nothing but defaults. -/
theorem parseIssues_of_renders_escaped :
    parseIssues
        "\x7b\"comments\":[\x7b\"message\":\"\\ud83d\\uDE00\",\"x\":[ ],\"line\":18446744073709551615,\"code\":7\x7d,\x7b\x7d]\x7d" =
      .ok [{ line := 18446744073709551615, code := some "7", message := "😀" }, {}] := by
  let members : List (String × Value) :=
    [("message", .string "😀"), ("x", .array []),
      ("line", .number (.natural 18446744073709551615)), ("code", .number (.natural 7))]
  have hrenders : Issue.Renders
      [{ line := 18446744073709551615, code := some "7", message := "😀" }, {}]
      (.object ([] ++ ("comments", .array [.object members, .object []]) :: [])) := by
    refine ⟨[members, []], .comments (by simp) (by simp), ?_⟩
    exact .cons (Issue.ofValue?_object_iff.1 (by decide))
      (.cons (Issue.ofValue?_object_iff.1 (by decide)) .nil)
  have hhigh : HexFour (0xd800 + 0x3d) "d83d".toList :=
    .digits (Or.inl rfl : HexDigit 13 'd') (Or.inl rfl : HexDigit 8 '8')
      (Or.inl rfl : HexDigit 3 '3') (Or.inl rfl : HexDigit 13 'd')
  have hlow : HexFour (0xdc00 + 0x200) "DE00".toList :=
    .digits (Or.inr rfl : HexDigit 13 'D') (Or.inr rfl : HexDigit 14 'E')
      (Or.inl rfl : HexDigit 0 '0') (Or.inl rfl : HexDigit 0 '0')
  have hspelled : Json.Spelled "😀".toList "\\ud83d\\uDE00".toList :=
    .cons (.surrogates (by decide) (by decide) hhigh hlow
      (by decide : '😀'.toNat = _)) .nil
  have hmessage : PaddedText (.string "😀") "\"\\ud83d\\uDE00\"".toList :=
    .plain (.string (.quoted hspelled))
  have hx : PaddedText (.array []) "[ ]".toList :=
    .plain (.array (.none fun c hc => Or.inl (List.mem_singleton.1 hc)))
  have hline : PaddedText (.number (.natural 18446744073709551615))
      "18446744073709551615".toList :=
    .plain (.number (.natural (by decide)))
  have hcode : PaddedText (.number (.natural 7)) "7".toList :=
    .plain (.number (.natural (by decide)))
  have hfirst := PaddedText.plain (Json.ValueText.object
    (.more (.plain "message" (by decide) hmessage) (.more (.plain "x" (by decide) hx)
      (.more (.plain "line" (by decide) hline) (.one (.plain "code" (by decide) hcode))))))
  have hsecond : PaddedText (.object []) "\x7b\x7d".toList :=
    .plain (.object (.none Space.nil))
  have htext := PaddedText.plain (Json.ValueText.object (.one
    (.plain "comments" (by decide) (.plain (.array (.more hfirst (.one hsecond)))))))
  apply parseIssues_of_renders hrenders
  · refine (congrArg (PaddedText _) ?_).mpr htext
    decide
  · simp [members, Value.Within, depthLimit]

end Lintmark
