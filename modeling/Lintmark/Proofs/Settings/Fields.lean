/-
The fields of settings, and how the members of an object set them.  Only members with
known names do, none of them twice, and each needs a value of its field's type.  Neither
their order nor the other members matter.
-/
import Mathlib.Data.List.Nodup
import Lintmark.Proofs.Json.Grammar
import Lintmark.Settings.Decode

namespace Lintmark

open Json (Value ValueText)

namespace SettingsField

variable {f g : SettingsField} {name : String}

theorem name_injective (h : f.name = g.name) : f = g := by
  cases f <;> cases g <;> first | rfl | exact absurd h (by decide)

theorem ofName?_eq_some_iff : ofName? name = some f ↔ name = f.name := by
  constructor
  · intro h
    have hname := List.find?_some h
    exact (beq_iff_eq.mp hname).symm
  · rintro rfl
    cases f <;> rfl

/-- The values of a field's type: strings, booleans or whole numbers from zero on. -/
def Takes : SettingsField → Value → Prop
  | executable, v => ∃ s, v = .string s
  | demote, v => ∃ b, v = .bool b
  | wholeLine, v => ∃ b, v = .bool b
  | enabled, v => ∃ b, v = .bool b
  | timeoutSecs, v => ∃ n, v = .number (.natural n)

end SettingsField

namespace Settings

variable {s s' : Settings} {f g : SettingsField} {v : Value} {seen : List SettingsField}
  {w : List Char}

def value (s : Settings) : SettingsField → Value
  | .executable => .string s.executable
  | .demote => .bool s.demote
  | .wholeLine => .bool s.wholeLine
  | .enabled => .bool s.enabled
  | .timeoutSecs => .number (.natural s.timeoutSecs)

/-- The settings with one field set to a value of its type. -/
def put (s : Settings) : SettingsField → Value → Settings
  | .executable, .string t => { s with executable := t }
  | .demote, .bool b => { s with demote := b }
  | .wholeLine, .bool b => { s with wholeLine := b }
  | .enabled, .bool b => { s with enabled := b }
  | .timeoutSecs, .number (.natural n) => { s with timeoutSecs := n }
  | _, _ => s

theorem takes_value (s : Settings) (f : SettingsField) : f.Takes (s.value f) := by
  cases f <;> exact ⟨_, rfl⟩

theorem value_put_self (h : f.Takes v) : (s.put f v).value f = v := by
  cases f <;> obtain ⟨_, rfl⟩ := h <;> rfl

theorem value_put_of_ne (h : f.Takes v) (hg : g ≠ f) : (s.put f v).value g = s.value g := by
  cases f <;> obtain ⟨_, rfl⟩ := h <;> cases g <;> first | rfl | exact absurd rfl hg

theorem eq_of_value (h : ∀ f, s.value f = s'.value f) : s = s' := by
  have hexecutable := h .executable
  have hdemote := h .demote
  have hwholeLine := h .wholeLine
  have henabled := h .enabled
  have htimeout := h .timeoutSecs
  cases s
  cases s'
  simp_all [value]

/-- The members of which the names are known, with the texts of their values. -/
def known (ms : List (String × List Char)) : List (SettingsField × List Char) :=
  ms.filterMap fun m => (SettingsField.ofName? m.1).map fun f => (f, m.2)

/-- The known members set the fields of settings, none twice and none that was seen
before. -/
structure SetBy (s : Settings) (seen : List SettingsField)
    (ms : List (SettingsField × List Char)) (s' : Settings) : Prop where
  once : (ms.map Prod.fst).Nodup
  fresh : ∀ f ∈ seen, f ∉ ms.map Prod.fst
  written : ∀ f w, (f, w) ∈ ms → ValueText (s'.value f) w
  kept : ∀ f, f ∉ ms.map Prod.fst → s'.value f = s.value f

variable {ms : List (SettingsField × List Char)}

theorem fresh_cons {fs : List SettingsField} (hf : f ∉ fs) (hfresh : ∀ g ∈ seen, g ∉ f :: fs) :
    ∀ g ∈ f :: seen, g ∉ fs := by
  intro g hg
  rcases List.mem_cons.mp hg with rfl | hg
  · exact hf
  · exact List.not_mem_of_not_mem_cons (hfresh g hg)

theorem SetBy.nil_iff : SetBy s seen [] s' ↔ s = s' := by
  constructor
  · intro h
    exact eq_of_value fun f => (h.kept f List.not_mem_nil).symm
  · rintro rfl
    exact ⟨List.nodup_nil, by simp, by simp, by simp⟩

theorem SetBy.cons_iff :
    SetBy s seen ((f, w) :: ms) s' ↔
      f ∉ seen ∧ ∃ v, f.Takes v ∧ ValueText v w ∧ SetBy (s.put f v) (f :: seen) ms s' := by
  constructor
  · rintro ⟨honce, hfresh, hwritten, hkept⟩
    rw [List.map_cons] at honce hfresh hkept
    obtain ⟨hgone, honce⟩ := List.nodup_cons.mp honce
    have htakes := takes_value s' f
    refine ⟨fun hf => hfresh f hf List.mem_cons_self, s'.value f, htakes,
      hwritten f w List.mem_cons_self, honce, fresh_cons hgone hfresh, ?_, ?_⟩
    · exact fun g w' hg => hwritten g w' (List.mem_cons_of_mem _ hg)
    · intro g hg
      by_cases hgf : g = f
      · rw [hgf, value_put_self htakes]
      · rw [value_put_of_ne htakes hgf]
        exact hkept g (List.not_mem_cons_of_ne_of_not_mem hgf hg)
  · rintro ⟨hseen, v, htakes, htext, honce, hfresh, hwritten, hkept⟩
    have hgone := hfresh f List.mem_cons_self
    refine ⟨List.nodup_cons.mpr ⟨hgone, honce⟩, ?_, ?_, ?_⟩
    · intro g hg
      rw [List.map_cons, List.mem_cons, not_or]
      refine ⟨?_, hfresh g (List.mem_cons_of_mem f hg)⟩
      rintro rfl
      exact hseen hg
    · intro g w' hg
      rcases List.mem_cons.mp hg with hg | hg
      · obtain ⟨rfl, rfl⟩ := Prod.mk.inj hg
        rw [hkept g hgone, value_put_self htakes]
        exact htext
      · exact hwritten g w' hg
    · intro g hg
      rw [List.map_cons, List.mem_cons, not_or] at hg
      rw [hkept g hg.2, value_put_of_ne htakes hg.1]

theorem SetBy.perm {ms' : List (SettingsField × List Char)} (h : SetBy s seen ms s')
    (hperm : ms.Perm ms') : SetBy s seen ms' s' := by
  have hfst := hperm.map Prod.fst
  obtain ⟨honce, hfresh, hwritten, hkept⟩ := h
  refine ⟨hfst.nodup_iff.mp honce, ?_, ?_, ?_⟩
  · intro f hf
    rw [← hfst.mem_iff]
    exact hfresh f hf
  · intro f w hw
    exact hwritten f w (hperm.mem_iff.mpr hw)
  · intro f hf
    exact hkept f fun h => hf (hfst.mem_iff.mp h)

/-- Known members of their types set the fields of some settings if none comes twice. -/
theorem exists_setBy (honce : (ms.map Prod.fst).Nodup) (hfresh : ∀ f ∈ seen, f ∉ ms.map Prod.fst)
    (htyped : ∀ f w, (f, w) ∈ ms → ∃ v, f.Takes v ∧ ValueText v w) (s : Settings) :
    ∃ s', SetBy s seen ms s' := by
  induction ms generalizing s seen with
  | nil => exact ⟨s, SetBy.nil_iff.mpr rfl⟩
  | cons m ms ih =>
      obtain ⟨f, w⟩ := m
      rw [List.map_cons] at honce hfresh
      obtain ⟨hgone, honce⟩ := List.nodup_cons.mp honce
      obtain ⟨v, htakes, htext⟩ := htyped f w List.mem_cons_self
      obtain ⟨s', hset⟩ := ih honce (fresh_cons hgone hfresh)
        (fun g w' hg => htyped g w' (List.mem_cons_of_mem _ hg)) (s.put f v)
      have hseen : f ∉ seen := fun hf => hfresh f hf List.mem_cons_self
      exact ⟨s', SetBy.cons_iff.mpr ⟨hseen, v, htakes, htext, hset⟩⟩

section

variable {raws : List (String × List Char)}

theorem known_singleton (m : String × List Char) :
    known [m] = ((SettingsField.ofName? m.1).map fun f => (f, m.2)).toList := by
  rw [known, List.filterMap_cons, List.filterMap_nil]
  cases SettingsField.ofName? m.1 <;> rfl

theorem known_cons (m : String × List Char) (raws : List (String × List Char)) :
    known (m :: raws) = known [m] ++ known raws :=
  List.filterMap_append (l := [m])

theorem mem_known : (f, w) ∈ known raws ↔ (f.name, w) ∈ raws := by
  simp only [known, List.mem_filterMap, Option.map_eq_some_iff, SettingsField.ofName?_eq_some_iff]
  constructor
  · rintro ⟨m, hm, g, hname, heq⟩
    obtain ⟨rfl, rfl⟩ := Prod.mk.inj heq
    rwa [← hname]
  · intro hm
    exact ⟨_, hm, f, rfl, rfl⟩

/-- A field comes as often as its name. -/
theorem count_known (f : SettingsField) (raws : List (String × List Char)) :
    ((known raws).map Prod.fst).count f = (raws.map Prod.fst).count f.name := by
  induction raws with
  | nil => rfl
  | cons m raws ih =>
      rw [known_cons, List.map_append, List.count_append, ih, List.map_cons, List.count_cons,
        Nat.add_comm]
      congr 1
      cases hfield : SettingsField.ofName? m.1 with
      | none =>
          have hname : ¬ m.1 = f.name := fun h => by
            rw [SettingsField.ofName?_eq_some_iff.mpr h] at hfield
            cases hfield
          simp [known_singleton, hfield, hname]
      | some g =>
          have hname : m.1 = f.name ↔ g = f := by
            rw [SettingsField.ofName?_eq_some_iff.mp hfield]
            exact ⟨SettingsField.name_injective, congrArg SettingsField.name⟩
          simp [known_singleton, hfield, hname, List.count_singleton]

theorem nodup_known_iff :
    ((known raws).map Prod.fst).Nodup ↔
      ∀ f : SettingsField, (raws.map Prod.fst).count f.name ≤ 1 := by
  rw [List.nodup_iff_count_le_one]
  simp only [count_known]

theorem mem_map_known : f ∈ (known raws).map Prod.fst ↔ f.name ∈ raws.map Prod.fst := by
  rw [← List.count_pos_iff, count_known, List.count_pos_iff]

end

end Settings

end Lintmark
