/-
The JSON text of reports loses nothing.  It is one JSON document with a line feed
behind it, and the value that is read from it holds everything that the reports show.
-/
import Mathlib.Data.List.Basic
import Lintmark.Report
import Lintmark.Proofs.Json.Printer
import Lintmark.Proofs.Json.Values

namespace Lintmark

def Annotation.value (a : Annotation) : Json.Value :=
  .object [
    ("range", .object [("start", .number (.natural a.start)),
      ("end", .number (.natural a.stop))]),
    ("severity", .string a.severity.label),
    ("message", .string a.message),
    ("code", a.code.elim .null .string),
    ("source", .string a.source),
    ("anchor_at_line_end", .bool a.atLineEnd)]

def Notification.value (n : Notification) : Json.Value :=
  .object [("kind", .string n.kind.label), ("message", .string n.message)]

/-- The value that shows a report.  It has a third member exactly if there is a message. -/
def FileReport.value (r : FileReport) : Json.Value :=
  let path := ("path", Json.Value.string r.path.text)
  let annotations := ("annotations", Json.Value.array (r.annotations.map Annotation.value))
  match r.notification with
  | none => .object [path, annotations]
  | some n => .object [path, annotations, ("notification", n.value)]

/-- Everything that a report shows, which is all but the text of the file. -/
def FileReport.data (r : FileReport) : Path × List Annotation × Option Notification :=
  (r.path, r.annotations, r.notification)

/-- All offsets of a report have 64 bits. -/
def FileReport.Fits (r : FileReport) : Prop :=
  ∀ a ∈ r.annotations, a.start < 2 ^ 64 ∧ a.stop < 2 ^ 64

theorem Severity.label_injective : Function.Injective Severity.label := by
  intro s s' h
  cases s <;> cases s' <;> first | rfl | exact absurd h (by decide)

theorem NotificationKind.label_injective : Function.Injective NotificationKind.label := by
  intro k k' h
  cases k <;> cases k' <;> first | rfl | exact absurd h (by decide)

theorem code_value_injective :
    Function.Injective fun code : Option String => code.elim Json.Value.null .string := by
  intro code code' h
  cases code with
  | none =>
      cases code' with
      | none => rfl
      | some c' => cases h
  | some c =>
      cases code' with
      | none => cases h
      | some c' => exact congrArg some (Json.Value.string.inj h)

theorem Annotation.value_injective : Function.Injective Annotation.value := by
  intro a a' h
  obtain ⟨start, stop, severity, message, code, source, atLineEnd⟩ := a
  obtain ⟨start', stop', severity', message', code', source', atLineEnd'⟩ := a'
  simp only [value, Json.Value.object.injEq, List.cons.injEq, Prod.mk.injEq, true_and,
    and_true, Json.Value.number.injEq, Json.Number.natural.injEq, Json.Value.string.injEq,
    Json.Value.bool.injEq] at h
  obtain ⟨⟨rfl, rfl⟩, hseverity, rfl, hcode, rfl, rfl⟩ := h
  rw [Severity.label_injective hseverity, code_value_injective hcode]

theorem Notification.value_injective : Function.Injective Notification.value := by
  intro n n' h
  obtain ⟨kind, message⟩ := n
  obtain ⟨kind', message'⟩ := n'
  simp only [value, Json.Value.object.injEq, List.cons.injEq, Prod.mk.injEq, true_and,
    and_true, Json.Value.string.injEq] at h
  obtain ⟨hkind, rfl⟩ := h
  rw [NotificationKind.label_injective hkind]

theorem FileReport.data_eq_of_value_eq {r r' : FileReport} (h : r.value = r'.value) :
    r.data = r'.data := by
  obtain ⟨⟨text⟩, document, annotations, notification⟩ := r
  obtain ⟨⟨text'⟩, document', annotations', notification'⟩ := r'
  cases notification with
  | none =>
      cases notification' with
      | none =>
          simp only [value, Json.Value.object.injEq, List.cons.injEq, Prod.mk.injEq,
            Json.Value.string.injEq, Json.Value.array.injEq, true_and, and_true] at h
          obtain ⟨rfl, hannotations⟩ := h
          rw [data, data, Annotation.value_injective.list_map hannotations]
      | some n' => simp [value] at h
  | some n =>
      cases notification' with
      | none => simp [value] at h
      | some n' =>
          simp only [value, Json.Value.object.injEq, List.cons.injEq, Prod.mk.injEq,
            Json.Value.string.injEq, Json.Value.array.injEq, true_and, and_true] at h
          obtain ⟨rfl, hannotations, hnotification⟩ := h
          rw [data, data, Annotation.value_injective.list_map hannotations,
            Notification.value_injective hnotification]

theorem FileReport.toJson_eq_of_data_eq {r r' : FileReport} (h : r.data = r'.data) :
    r.toJson = r'.toJson := by
  simp only [data, Prod.mk.injEq] at h
  obtain ⟨hpath, hannotations, hnotification⟩ := h
  rw [toJson, toJson, hpath, hannotations, hnotification]

/-- What one function tells from another on elements, it tells on lists. -/
theorem map_eq_map_of_imp {α β γ : Type} {f : α → β} {g : α → γ}
    (himp : ∀ a a', f a = f a' → g a = g a') {as as' : List α}
    (h : as.map f = as'.map f) : as.map g = as'.map g := by
  induction as generalizing as' with
  | nil =>
      cases as' with
      | nil => rfl
      | cons a' as' => cases h
  | cons a as ih =>
      cases as' with
      | nil => cases h
      | cons a' as' =>
          obtain ⟨hhead, htail⟩ := List.cons.inj h
          rw [List.map_cons, List.map_cons, himp a a' hhead, ih htail]

theorem Annotation.toJson_value (a : Annotation) : a.toJson.value = a.value := by
  obtain ⟨start, stop, severity, message, code, source, atLineEnd⟩ := a
  cases code <;> rfl

theorem Annotation.toJson_fits {a : Annotation} (hstart : a.start < 2 ^ 64)
    (hstop : a.stop < 2 ^ 64) : a.toJson.Fits := by
  cases hcode : a.code <;>
    simp only [toJson, hcode, Json.Tree.Fits, Json.Tree.MembersFit, and_true]
  all_goals exact ⟨hstart, hstop⟩

theorem Annotation.values_toJson (as : List Annotation) :
    Json.Tree.values (as.map Annotation.toJson) = as.map Annotation.value := by
  rw [Json.Tree.values_eq_map, List.map_map]
  exact List.map_congr_left fun a _ => a.toJson_value

theorem FileReport.toJson_value (r : FileReport) : r.toJson.value = r.value := by
  obtain ⟨path, document, annotations, notification⟩ := r
  cases notification <;>
    simp [toJson, value, Json.Tree.value, Json.Tree.memberValues, Annotation.values_toJson,
      Notification.toJson, Notification.value]

theorem FileReport.Fits.toJson_fits {r : FileReport} (h : r.Fits) : r.toJson.Fits := by
  have hannotations : Json.Tree.AllFit (r.annotations.map Annotation.toJson) := by
    rw [Json.Tree.allFit_iff, List.forall_mem_map]
    intro a ha
    exact Annotation.toJson_fits (h a ha).1 (h a ha).2
  cases hnotification : r.notification <;>
    simp [toJson, hnotification, Json.Tree.Fits, Json.Tree.MembersFit, hannotations,
      Notification.toJson]

theorem Annotation.value_within (a : Annotation) : a.value.Within 2 := by
  obtain ⟨start, stop, severity, message, code, source, atLineEnd⟩ := a
  cases code <;> simp [value, Json.Value.Within]

theorem FileReport.value_within (r : FileReport) : r.value.Within 4 := by
  have hannotations : ∀ a ∈ r.annotations, a.value.Within 2 :=
    fun a _ => a.value_within
  cases hnotification : r.notification <;>
    simpa [value, hnotification, Notification.value, Json.Value.Within] using hannotations

section JsonText

variable {reports reports' : List FileReport}

theorem jsonText_written (hfits : ∀ r ∈ reports, r.Fits) :
    ∃ w, (jsonText reports).toList = w ++ ['\n'] ∧
      Json.ValueText (.array (reports.map FileReport.value)) w := by
  have htree : (Json.Tree.array (reports.map FileReport.toJson)).Fits := by
    rw [Json.Tree.Fits, Json.Tree.allFit_iff, List.forall_mem_map]
    intro r hr
    exact (hfits r hr).toJson_fits
  have hvalues : Json.Tree.values (reports.map FileReport.toJson) =
      reports.map FileReport.value := by
    rw [Json.Tree.values_eq_map, List.map_map]
    exact List.map_congr_left fun r _ => r.toJson_value
  have htext := Json.Tree.written_text 0 _ htree
  rw [Json.Tree.value, hvalues] at htext
  refine ⟨_, ?_, htext⟩
  rw [jsonText, String.toList_append, Json.Tree.text, String.toList_ofList]
  rfl

theorem value_jsonText (hfits : ∀ r ∈ reports, r.Fits) :
    Json.value (jsonText reports).toList =
      .ok (.array (reports.map FileReport.value), ['\n']) := by
  obtain ⟨w, hw, htext⟩ := jsonText_written hfits
  have hwithin : (Json.Value.array (reports.map FileReport.value)).Within 5 := by
    refine Json.Value.within_array.mpr ⟨4, rfl, ?_⟩
    rw [List.forall_mem_map]
    exact fun r _ => r.value_within
  have hstops : Json.Stops ['\n'] := Json.Stops.cons (by decide) []
  rw [hw, Json.value]
  apply htext.readFrom (Json.depthLimit - 1) _ ['\n'] (hwithin.mono (by decide)) ?_ hstops
  rw [List.length_append]
  omega

/-- The reports are written as one JSON document with a line feed behind it.  What is
read from it is the list of the values that show the reports, and two lists of reports
have the same text exactly if their data are the same. -/
theorem jsonText_lossless (hfits : ∀ r ∈ reports, r.Fits) :
    (∃ w, (jsonText reports).toList = w ++ ['\n'] ∧
        Json.ValueText (.array (reports.map FileReport.value)) w) ∧
      Json.value (jsonText reports).toList =
        .ok (.array (reports.map FileReport.value), ['\n']) ∧
      Json.atEnd ['\n'] = .ok () ∧
      ∀ reports', (∀ r ∈ reports', r.Fits) →
        (jsonText reports' = jsonText reports ↔
          reports'.map FileReport.data = reports.map FileReport.data) := by
  refine ⟨jsonText_written hfits, value_jsonText hfits, rfl, ?_⟩
  intro reports' hfits'
  constructor
  · intro hsame
    have hread := value_jsonText hfits'
    rw [hsame, value_jsonText hfits] at hread
    obtain ⟨hvalue, -⟩ := Prod.mk.inj (Except.ok.inj hread)
    apply map_eq_map_of_imp fun r r' h => FileReport.data_eq_of_value_eq h
    exact (Json.Value.array.inj hvalue).symm
  · intro hdata
    rw [jsonText, jsonText,
      map_eq_map_of_imp (fun r r' h => FileReport.toJson_eq_of_data_eq h) hdata]

/-- A report without a message and one with nothing but a message, full of characters
that cannot stand for themselves. -/
def thornyReports : List FileReport := [
  { path := ⟨"a \"b\" \\ c.sh"⟩
    document := .ofString ""
    annotations := [
      ⟨0, 2 ^ 64 - 1, .error, "\x01\t𝄞\u2028", some "SC1000", "shellcheck", false⟩,
      ⟨7, 7, .info, "", none, "shellcheck", true⟩] },
  { path := ⟨"gone.sh"⟩
    document := .ofString ""
    notification := some ⟨.error, "failed\r\n"⟩ }]

theorem jsonText_lossless_of_thorny_reports :
    Json.value (jsonText thornyReports).toList = .ok (.array [
      .object [("path", .string "a \"b\" \\ c.sh"),
        ("annotations", .array [
          .object [("range", .object [("start", .number (.natural 0)),
              ("end", .number (.natural (2 ^ 64 - 1)))]),
            ("severity", .string "error"), ("message", .string "\x01\t𝄞\u2028"),
            ("code", .string "SC1000"), ("source", .string "shellcheck"),
            ("anchor_at_line_end", .bool false)],
          .object [("range", .object [("start", .number (.natural 7)),
              ("end", .number (.natural 7))]),
            ("severity", .string "info"), ("message", .string ""), ("code", .null),
            ("source", .string "shellcheck"), ("anchor_at_line_end", .bool true)]])],
      .object [("path", .string "gone.sh"), ("annotations", .array []),
        ("notification",
          .object [("kind", .string "error"), ("message", .string "failed\r\n")])]],
      ['\n']) ∧ jsonText thornyReports.reverse ≠ jsonText thornyReports := by
  have hfits : ∀ r ∈ thornyReports, r.Fits := by
    unfold FileReport.Fits
    decide
  have hreverse : ∀ r ∈ thornyReports.reverse, r.Fits :=
    fun r hr => hfits r (List.mem_reverse.mp hr)
  obtain ⟨-, hvalue, -, hsame⟩ := jsonText_lossless hfits
  exact ⟨hvalue, mt (hsame _ hreverse).mp (by decide)⟩

end JsonText

end Lintmark
