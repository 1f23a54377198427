/-
Reading values of a type: a string, a boolean, or a whole number from zero on.  Where a
text of the form of a value stands, its reader takes the whole text or fails.
-/
import Lintmark.Proofs.Json.Skipping
import Lintmark.Settings.Decode

namespace Lintmark.Json

variable {α β : Type} {c : Char} {cs w rest rest' t : List Char} {b : Bool} {n : Nat} {s : String}

theorem failOn_ne_ok {cause : Cause} {x : α × List Char} : failOn cause cs ≠ .ok x := by
  intro h
  cases h

theorem failBehind_ne_ok {cause : Cause} {x : α × List Char} : failBehind cause cs ≠ .ok x := by
  intro h
  cases h

theorem andThen_failBehind_ne_ok {r : Read β} {cause : β → Cause} {x : α × List Char} :
    (r.andThen fun b rest => failBehind (cause b) rest) ≠ .ok x := by
  intro h
  obtain ⟨_, _, -, hfail⟩ := Read.andThen_eq_ok.mp h
  exact failBehind_ne_ok hfail

theorem wrongType_ne_ok {expected : String} {x : α × List Char} :
    wrongType expected cs ≠ .ok x := by
  rw [wrongType.eq_def]
  dsimp only
  split
  · exact failOn_ne_ok
  · exact andThen_failBehind_ne_ok
  · exact andThen_failBehind_ne_ok
  · exact andThen_failBehind_ne_ok
  · exact andThen_failBehind_ne_ok
  · exact failBehind_ne_ok
  · exact failBehind_ne_ok
  · split
    · exact andThen_failBehind_ne_ok
    · exact failOn_ne_ok

theorem ValueForm.string_of_quote (h : ValueForm ('"' :: cs)) : StringForm ('"' :: cs) := by
  cases h with
  | string h => exact h
  | number h =>
      obtain ⟨c, cs, hcs, hc⟩ := h.head
      obtain ⟨rfl, -⟩ := List.cons.inj hcs
      exact absurd hc (by decide)

theorem ValueForm.bool_of_letter (h : ValueForm (c :: cs)) (hc : c = 't' ∨ c = 'f') :
    ∃ b, ValueText (.bool b) (c :: cs) := by
  cases h with
  | true => exact ⟨_, .true⟩
  | false => exact ⟨_, .false⟩
  | number h =>
      obtain ⟨d, ds, hds, hd⟩ := h.head
      obtain ⟨rfl, -⟩ := List.cons.inj hds
      rcases hc with rfl | rfl <;> exact absurd hd (by decide)
  | string h =>
      cases h with
      | quoted h => exact absurd hc (by decide)
  | null => exact absurd hc (by decide)
  | array h => exact absurd hc (by decide)
  | object h => exact absurd hc (by decide)

theorem ValueForm.numeral_of_number (h : ValueForm (c :: cs)) (hc : c = '-' ∨ c.isDigit) :
    Numeral (c :: cs) := by
  cases h with
  | number h => exact h
  | string h =>
      cases h with
      | quoted h => exact absurd hc (by decide)
  | null => exact absurd hc (by decide)
  | true => exact absurd hc (by decide)
  | false => exact absurd hc (by decide)
  | array h => exact absurd hc (by decide)
  | object h => exact absurd hc (by decide)

theorem valueText_string_iff : ValueText (.string s) w ↔ StringText s w := by
  constructor
  · rintro ⟨⟩
    assumption
  · exact .string

theorem valueText_natural_iff : ValueText (.number (.natural n)) w ↔ NumberText (.natural n) w := by
  constructor
  · rintro ⟨⟩
    assumption
  · exact .number

theorem expectString_eq_ok_iff (ht : Space t) (h : ValueForm w) :
    expectString (t ++ w ++ rest) = .ok (s, rest') ↔
      ValueText (.string s) w ∧ rest' = rest := by
  rw [valueText_string_iff, expectString, h.skipSpace_append ht]
  obtain ⟨c, cs, rfl, -⟩ := h.head
  by_cases hc : c = '"'
  · subst hc
    exact h.string_of_quote.string_eq_ok_iff rfl
  · have hquote : ∀ cs', c :: cs ++ rest ≠ '"' :: cs' := by
      intro cs' heq
      exact hc (List.cons.inj heq).1
    split
    · rename_i heq
      exact absurd heq (hquote _)
    · apply iff_of_false wrongType_ne_ok
      rintro ⟨⟨htext⟩, -⟩
      exact hc rfl

theorem expectBool_of_text (ht : Space t) (h : ValueText (.bool b) w) (rest : List Char) :
    expectBool (t ++ w ++ rest) = .ok (b, rest) := by
  rw [expectBool, h.form.skipSpace_append ht]
  cases h with
  | true => rfl
  | false => rfl

theorem expectBool_eq_ok_iff (ht : Space t) (h : ValueForm w) :
    expectBool (t ++ w ++ rest) = .ok (b, rest') ↔ ValueText (.bool b) w ∧ rest' = rest := by
  constructor
  · intro hread
    obtain ⟨c, cs, rfl, -⟩ := h.head
    by_cases hc : c = 't' ∨ c = 'f'
    · obtain ⟨b', htext⟩ := h.bool_of_letter hc
      rw [expectBool_of_text ht htext] at hread
      cases hread
      exact ⟨htext, rfl⟩
    · rw [expectBool, h.skipSpace_append ht, List.cons_append] at hread
      split at hread
      · rename_i heq
        exact absurd (Or.inl (List.cons.inj heq).1) hc
      · rename_i heq
        exact absurd (Or.inr (List.cons.inj heq).1) hc
      · exact absurd hread wrongType_ne_ok
  · rintro ⟨htext, rfl⟩
    exact expectBool_of_text ht htext rest'

theorem expectNatural_eq_ok_iff (ht : Space t) (h : ValueForm w) (hrest : Stops rest) :
    expectNatural (t ++ w ++ rest) = .ok (n, rest') ↔
      ValueText (.number (.natural n)) w ∧ rest' = rest := by
  rw [valueText_natural_iff, expectNatural, h.skipSpace_append ht]
  obtain ⟨c, cs, rfl, -⟩ := h.head
  have hiff : (c = '-' || isDigit c) = true ↔ c = '-' ∨ c.isDigit := by
    rw [Bool.or_eq_true, decide_eq_true_eq]
    rfl
  rw [List.cons_append]
  dsimp only
  split
  · rename_i hc
    have hnumeral := h.numeral_of_number (hiff.mp hc)
    rw [Read.andThen_eq_ok, ← hnumeral.number_eq_natural_iff hrest]
    constructor
    · rintro ⟨m, rest'', hread, hnatural⟩
      split at hnatural
      · obtain ⟨rfl, rfl⟩ := Prod.mk.inj (Except.ok.inj hnatural)
        exact hread
      · exact absurd hnatural failBehind_ne_ok
      · exact absurd hnatural failBehind_ne_ok
    · intro hread
      exact ⟨_, _, hread, rfl⟩
  · rename_i hc
    apply iff_of_false wrongType_ne_ok
    rintro ⟨htext, -⟩
    obtain ⟨d, ds, hds, hd⟩ := htext.numeral.head
    obtain ⟨rfl, -⟩ := List.cons.inj hds
    exact hc (hiff.mpr hd)

end Lintmark.Json
