/-
What decodes to an issue.  An object does exactly when its members write the
fields of the issue, in any order and none twice, and a list exactly when its
items write the first fields.  The fields that are left out have their defaults.
-/
import Mathlib.Data.List.Nodup
import Lintmark.Issue.Decode

namespace Lintmark

open Json (Value)

/-- What a field of an issue holds. -/
inductive Content where
  | natural (n : Nat)
  | text (s : String)
  | code (c : Option String)

namespace Issue

def content (i : Issue) : IssueField → Content
  | .line => .natural i.line
  | .endLine => .natural i.endLine
  | .column => .natural i.column
  | .endColumn => .natural i.endColumn
  | .level => .text i.level
  | .code => .code i.code
  | .message => .text i.message

/-- The issue with one field of another one. -/
def adopt (i j : Issue) : IssueField → Issue
  | .line => { i with line := j.line }
  | .endLine => { i with endLine := j.endLine }
  | .column => { i with column := j.column }
  | .endColumn => { i with endColumn := j.endColumn }
  | .level => { i with level := j.level }
  | .code => { i with code := j.code }
  | .message => { i with message := j.message }

variable {i j k : Issue} {f g : IssueField} {v : Value} {seen : List IssueField}
  {ms : List (String × Value)}

theorem eq_of_content (h : ∀ f, i.content f = j.content f) : i = j := by
  have hline := h .line
  have hendLine := h .endLine
  have hcolumn := h .column
  have hendColumn := h .endColumn
  have hlevel := h .level
  have hcode := h .code
  have hmessage := h .message
  cases i
  cases j
  simp_all [content]

theorem content_adopt_self : (i.adopt j f).content f = j.content f := by
  cases f <;> rfl

theorem content_adopt_of_ne (h : g ≠ f) : (i.adopt j f).content g = i.content g := by
  cases f <;> cases g <;> first | rfl | exact absurd rfl h

end Issue

/-- How a field is written.  A code is a string, or the number whose decimal
digits it is, or null for none. -/
inductive Content.Written : Content → Value → Prop where
  | natural {n : Nat} : Written (.natural n) (.number (.natural n))
  | text {s : String} : Written (.text s) (.string s)
  | noCode : Written (.code none) .null
  | textCode {s : String} : Written (.code (some s)) (.string s)
  | numberCode {n : Nat} :
      Written (.code (some (toString n))) (.number (.natural n))

namespace IssueField

theorem name_injective {f g : IssueField} (h : f.name = g.name) : f = g := by
  cases f <;> cases g <;> first | rfl | exact absurd h (by decide)

theorem mem_all (f : IssueField) : f ∈ all := by
  cases f <;> decide

theorem ofName?_eq_some_iff {f : IssueField} {name : String} :
    ofName? name = some f ↔ name = f.name := by
  constructor
  · intro h
    have hname := List.find?_some h
    exact (beq_iff_eq.1 hname).symm
  · rintro rfl
    cases f <;> rfl

theorem ofName?_eq_none_iff {name : String} :
    ofName? name = none ↔ ∀ f : IssueField, name ≠ f.name := by
  rw [ofName?, List.find?_eq_none]
  constructor
  · intro h f hname
    exact h f (mem_all f) (beq_iff_eq.2 hname.symm)
  · intro h f _ hname
    exact h f (beq_iff_eq.1 hname).symm

end IssueField

namespace Issue

variable {i j k : Issue} {f g : IssueField} {v : Value} {seen : List IssueField}
  {ms : List (String × Value)}

theorem natural?_eq_some_iff {n : Nat} :
    natural? v = some n ↔ (Content.natural n).Written v := by
  constructor
  · intro h
    rw [natural?.eq_def] at h
    split at h
    · obtain rfl := Option.some.inj h
      exact .natural
    · cases h
  · rintro ⟨⟩
    rfl

theorem string?_eq_some_iff {s : String} :
    string? v = some s ↔ (Content.text s).Written v := by
  constructor
  · intro h
    rw [string?.eq_def] at h
    split at h
    · obtain rfl := Option.some.inj h
      exact .text
    · cases h
  · rintro ⟨⟩
    rfl

theorem code?_eq_some_iff {c : Option String} :
    code? v = some c ↔ (Content.code c).Written v := by
  constructor
  · intro h
    rw [code?.eq_def] at h
    split at h
    · obtain rfl := Option.some.inj h
      exact .noCode
    · obtain rfl := Option.some.inj h
      exact .numberCode
    · obtain rfl := Option.some.inj h
      exact .textCode
    · cases h
  · intro h
    cases h <;> rfl

/-- Setting a field takes what is written there and leaves the others alone. -/
theorem set?_eq_some_iff :
    i.set? v f = some j ↔
      (j.content f).Written v ∧ ∀ g ≠ f, j.content g = i.content g := by
  have hset : i.set? v f = some j ↔ (j.content f).Written v ∧ i.adopt j f = j := by
    cases f
    all_goals
      simp only [set?, Option.map_eq_some_iff, natural?_eq_some_iff,
        string?_eq_some_iff, code?_eq_some_iff, content, adopt]
      constructor
      · rintro ⟨_, hwritten, rfl⟩
        exact ⟨hwritten, rfl⟩
      · rintro ⟨hwritten, hj⟩
        exact ⟨_, hwritten, hj⟩
  rw [hset]
  refine and_congr_right fun _ => ⟨?_, ?_⟩
  · intro hj g hg
    calc
      j.content g = (i.adopt j f).content g := by rw [hj]
      _ = i.content g := content_adopt_of_ne hg
  · intro hsame
    apply eq_of_content
    intro g
    by_cases hg : g = f
    · rw [hg, content_adopt_self]
    · rw [content_adopt_of_ne hg, hsame g hg]

/-- The members set the fields of an issue, one by one.  No field is set twice,
and none that was seen before. -/
structure SetBy (i : Issue) (seen : List IssueField) (ms : List (String × Value))
    (j : Issue) : Prop where
  once : ∀ f : IssueField, (ms.map Prod.fst).count f.name ≤ 1
  fresh : ∀ f ∈ seen, f.name ∉ ms.map Prod.fst
  written : ∀ f v, (IssueField.name f, v) ∈ ms → (j.content f).Written v
  kept : ∀ f : IssueField, f.name ∉ ms.map Prod.fst → j.content f = i.content f

theorem SetBy.nil_iff : SetBy i seen [] j ↔ i = j := by
  constructor
  · intro h
    exact eq_of_content fun f => (h.kept f List.not_mem_nil).symm
  · rintro rfl
    exact ⟨by simp, by simp, by simp, by simp⟩

theorem SetBy.unknown_iff {name : String} (hname : ∀ f : IssueField, name ≠ f.name) :
    SetBy i seen ((name, v) :: ms) j ↔ SetBy i seen ms j := by
  have hmem (f : IssueField) :
      f.name ∈ ((name, v) :: ms).map Prod.fst ↔ f.name ∈ ms.map Prod.fst := by
    simp [(hname f).symm]
  have hcount (f : IssueField) :
      (((name, v) :: ms).map Prod.fst).count f.name = (ms.map Prod.fst).count f.name :=
    List.count_cons_of_ne (hname f)
  have hmember (f : IssueField) (v' : Value) :
      (f.name, v') ∈ (name, v) :: ms ↔ (f.name, v') ∈ ms := by
    simp [(hname f).symm]
  constructor
  · rintro ⟨honce, hfresh, hwritten, hkept⟩
    simp only [hmem, hcount, hmember] at honce hfresh hwritten hkept
    exact ⟨honce, hfresh, hwritten, hkept⟩
  · rintro ⟨honce, hfresh, hwritten, hkept⟩
    constructor
    · simpa only [hcount] using honce
    · simpa only [hmem] using hfresh
    · simpa only [hmember] using hwritten
    · simpa only [hmem] using hkept

theorem SetBy.known_iff (hseen : f ∉ seen) :
    SetBy i seen ((f.name, v) :: ms) j ↔
      ∃ k, i.set? v f = some k ∧ SetBy k (f :: seen) ms j := by
  have hname {g : IssueField} (hg : g ≠ f) : f.name ≠ g.name :=
    fun h => hg (IssueField.name_injective h).symm
  constructor
  · rintro ⟨honce, hfresh, hwritten, hkept⟩
    simp only [List.map_cons] at honce hfresh hkept
    have hgone : f.name ∉ ms.map Prod.fst := by
      have hcount := honce f
      rw [List.count_cons_self] at hcount
      exact List.count_eq_zero.1 (by omega)
    -- The member sets one field, and what is behind it sets the others of `j`.
    refine ⟨i.adopt j f, ?_, ?_, ?_, ?_, ?_⟩
    · apply set?_eq_some_iff.2
      rw [content_adopt_self]
      exact ⟨hwritten f v List.mem_cons_self, fun g hg => content_adopt_of_ne hg⟩
    · exact fun g => Nat.le_trans List.count_le_count_cons (honce g)
    · intro g hg
      rcases List.mem_cons.1 hg with rfl | hg
      · exact hgone
      · exact fun h => hfresh g hg (List.mem_cons_of_mem _ h)
    · exact fun g v' h => hwritten g v' (List.mem_cons_of_mem _ h)
    · intro g hg
      by_cases hgf : g = f
      · rw [hgf, content_adopt_self]
      · rw [content_adopt_of_ne hgf]
        exact hkept g (by simp [(hname hgf).symm, hg])
  · rintro ⟨k, hset, honce, hfresh, hwritten, hkept⟩
    obtain ⟨hf, hothers⟩ := set?_eq_some_iff.1 hset
    have hgone := hfresh f List.mem_cons_self
    constructor
    · intro g
      rw [List.map_cons]
      by_cases hgf : g = f
      · have hzero := List.count_eq_zero.2 hgone
        rw [hgf, List.count_cons_self]
        omega
      · rw [List.count_cons_of_ne (hname hgf)]
        exact honce g
    · intro g hg
      have hgf : g ≠ f := fun h => hseen (h ▸ hg)
      have hlater := hfresh g (List.mem_cons_of_mem f hg)
      simpa [(hname hgf).symm] using hlater
    · intro g v' h
      rcases List.mem_cons.1 h with h | h
      · obtain ⟨hgf, rfl⟩ := Prod.mk.inj h
        rw [IssueField.name_injective hgf, hkept f hgone]
        exact hf
      · exact hwritten g v' h
    · intro g hg
      rw [List.map_cons, List.mem_cons, not_or] at hg
      rw [hkept g hg.2]
      exact hothers g fun h => hg.1 (congrArg IssueField.name h)

theorem setMembers?_eq_some_iff :
    i.setMembers? seen ms = some j ↔ SetBy i seen ms j := by
  induction ms generalizing i seen with
  | nil => rw [setMembers?, Option.some_inj, SetBy.nil_iff]
  | cons m ms ih =>
      obtain ⟨name, v⟩ := m
      rw [setMembers?]
      cases hfield : IssueField.ofName? name with
      | none =>
          rw [SetBy.unknown_iff (IssueField.ofName?_eq_none_iff.1 hfield)]
          exact ih
      | some f =>
          obtain rfl := IssueField.ofName?_eq_some_iff.1 hfield
          by_cases hseen : f ∈ seen
          · simp only [hseen, if_true]
            constructor
            · intro h
              cases h
            · intro h
              exact absurd List.mem_cons_self (h.fresh f hseen)
          · simp only [hseen, if_false, Option.bind_eq_some_iff, ih]
            exact (SetBy.known_iff hseen).symm

/-- How an issue is written as an object: each field at most once and in any
order, other names mixed in.  A field may be left out if it has its default. -/
structure WrittenBy (i : Issue) (ms : List (String × Value)) : Prop where
  once : ∀ f : IssueField, (ms.map Prod.fst).count f.name ≤ 1
  written : ∀ f v, (IssueField.name f, v) ∈ ms → (i.content f).Written v
  default : ∀ f : IssueField, f.name ∉ ms.map Prod.fst →
    i.content f = ({} : Issue).content f

theorem ofValue?_object_iff :
    ofValue? (.object ms) = some i ↔ WrittenBy i ms := by
  rw [ofValue?, setMembers?_eq_some_iff]
  constructor
  · rintro ⟨honce, -, hwritten, hkept⟩
    exact ⟨honce, hwritten, hkept⟩
  · rintro ⟨honce, hwritten, hdefault⟩
    exact ⟨honce, fun f hf => absurd hf List.not_mem_nil, hwritten, hdefault⟩

/-- How an issue is written as a list: its first fields in order.  The other
fields have their defaults. -/
structure ListedBy (i : Issue) (vs : List Value) : Prop where
  short : vs.length ≤ IssueField.all.length
  written : ∀ f v, (f, v) ∈ IssueField.all.zip vs → (i.content f).Written v
  default : ∀ f, f ∉ IssueField.all.take vs.length →
    i.content f = ({} : Issue).content f

theorem setItems?_eq_some_iff {fields : List IssueField} {vs : List Value}
    (hnodup : fields.Nodup) :
    i.setItems? fields vs = some j ↔
      vs.length ≤ fields.length ∧
      (∀ f v, (f, v) ∈ fields.zip vs → (j.content f).Written v) ∧
      ∀ f, f ∉ fields.take vs.length → j.content f = i.content f := by
  induction vs generalizing i fields with
  | nil =>
      rw [setItems?, Option.some_inj]
      constructor
      · rintro rfl
        simp
      · rintro ⟨-, -, hkept⟩
        exact eq_of_content fun f => (hkept f (by simp)).symm
  | cons v vs ih =>
      cases fields with
      | nil => simp [setItems?]
      | cons f fields =>
          obtain ⟨hf, hnodup⟩ := List.nodup_cons.1 hnodup
          rw [setItems?]
          simp only [Option.bind_eq_some_iff, set?_eq_some_iff, ih hnodup]
          constructor
          · rintro ⟨k, ⟨hv, hothers⟩, hshort, hwritten, hkept⟩
            have hsame : j.content f = k.content f :=
              hkept f fun h => hf (List.mem_of_mem_take h)
            refine ⟨Nat.succ_le_succ hshort, ?_, ?_⟩
            · intro g w h
              rw [List.zip_cons_cons] at h
              rcases List.mem_cons.1 h with h | h
              · obtain ⟨rfl, rfl⟩ := Prod.mk.inj h
                rw [hsame]
                exact hv
              · exact hwritten g w h
            · intro g hg
              rw [List.length_cons, List.take_succ_cons, List.mem_cons, not_or] at hg
              rw [hkept g hg.2]
              exact hothers g hg.1
          · rintro ⟨hshort, hwritten, hkept⟩
            refine ⟨i.adopt j f, ⟨?_, fun g hg => content_adopt_of_ne hg⟩,
              Nat.le_of_succ_le_succ hshort, ?_, ?_⟩
            · rw [content_adopt_self]
              exact hwritten f v List.mem_cons_self
            · exact fun g w h => hwritten g w (List.mem_cons_of_mem _ h)
            · intro g hg
              by_cases hgf : g = f
              · rw [hgf, content_adopt_self]
              · rw [content_adopt_of_ne hgf]
                exact hkept g (by simp [hgf, hg])

theorem ofValue?_array_iff {vs : List Value} :
    ofValue? (.array vs) = some i ↔ ListedBy i vs := by
  rw [ofValue?, setItems?_eq_some_iff (by decide)]
  constructor
  · rintro ⟨hshort, hwritten, hdefault⟩
    exact ⟨hshort, hwritten, hdefault⟩
  · rintro ⟨hshort, hwritten, hdefault⟩
    exact ⟨hshort, hwritten, hdefault⟩

/-- How an issue is written: as an object or as a list. -/
inductive Encodes (i : Issue) : Value → Prop where
  | object {ms : List (String × Value)} (h : WrittenBy i ms) : Encodes i (.object ms)
  | array {vs : List Value} (h : ListedBy i vs) : Encodes i (.array vs)

theorem ofValue?_eq_some_iff : ofValue? v = some i ↔ Encodes i v := by
  constructor
  · intro h
    cases v with
    | object ms => exact .object (ofValue?_object_iff.1 h)
    | array vs => exact .array (ofValue?_array_iff.1 h)
    | null => cases h
    | bool b => cases h
    | number n => cases h
    | string s => cases h
  · intro h
    cases h with
    | object h => exact ofValue?_object_iff.2 h
    | array h => exact ofValue?_array_iff.2 h

end Issue

end Lintmark
