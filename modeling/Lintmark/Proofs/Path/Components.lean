/-
The components of a path, in terms of those pieces between its slashes that name
something.
-/
import Mathlib.Data.List.Basic
import Lintmark.Path

namespace Lintmark

namespace Path

variable {p q : Path}

theorem same_iff : p.same q ↔ p.components = q.components :=
  beq_iff_eq

/-- The pieces of a path that name a directory or a file: all but the empty ones and
single dots.  Two dots stay. -/
def namingPieces (p : Path) : List (List Char) :=
  (p.text.toList.splitOn '/').filter fun s => s ≠ [] ∧ s ≠ ['.']

def componentOf (piece : List Char) : Component :=
  if piece = ['.', '.'] then .parent else .name piece

theorem componentOf_injective : Function.Injective componentOf := by
  intro s s' h
  rw [componentOf, componentOf] at h
  split at h <;> split at h <;> simp_all

theorem component?_eq (piece : List Char) :
    component? piece =
      if piece ≠ [] ∧ piece ≠ ['.'] then some (componentOf piece) else none := by
  rw [component?.eq_def]
  split
  · rfl
  · rfl
  · rfl
  · rename_i hempty hdot hdots
    have hnaming : piece ≠ [] ∧ piece ≠ ['.'] := ⟨hempty, hdot⟩
    have hname : piece ≠ ['.', '.'] := hdots
    rw [if_pos hnaming, componentOf, if_neg hname]

theorem filterMap_component? (pieces : List (List Char)) :
    pieces.filterMap component? =
      (pieces.filter fun s => s ≠ [] ∧ s ≠ ['.']).map componentOf := by
  induction pieces with
  | nil => rfl
  | cons s pieces ih =>
      rw [List.filterMap_cons, List.filter_cons, ih, component?_eq]
      by_cases hnaming : s ≠ [] ∧ s ≠ ['.']
      · rw [if_pos hnaming, if_pos (decide_eq_true hnaming), List.map_cons]
      · rw [if_neg hnaming, if_neg (mt of_decide_eq_true hnaming)]

theorem components_of_isAbsolute (h : p.isAbsolute) :
    p.components = .root :: p.namingPieces.map componentOf := by
  have hhead : p.text.toList.head? = some '/' := by rwa [isAbsolute, beq_iff_eq] at h
  obtain ⟨rest, hrest⟩ := List.head?_eq_some_iff.mp hhead
  have hsplit : ([] ++ '/' :: rest).splitOn '/' = [] :: rest.splitOn '/' :=
    List.splitOn_append_cons_self_of_not_mem List.not_mem_nil rest
  have hpieces : p.text.toList.splitOn '/' = [] :: rest.splitOn '/' := by
    rw [hrest, ← hsplit, List.nil_append]
  rw [components, pieces, namingPieces, hpieces, ← filterMap_component?]
  simp only [h, if_true, List.filterMap_cons, component?]
  rfl

/-- The naming pieces are all components but those at the start that are no names. -/
theorem exists_components_eq (p : Path) :
    ∃ start : List Component, (∀ c ∈ start, ∀ s, c ≠ .name s) ∧
      p.components = start ++ p.namingPieces.map componentOf := by
  by_cases habsolute : p.isAbsolute
  · exact ⟨[.root], by simp, components_of_isAbsolute habsolute⟩
  · obtain ⟨first, rest, hpieces⟩ :=
      List.exists_cons_of_ne_nil (List.splitOn_ne_nil '/' p.text.toList)
    rw [components, pieces, namingPieces, hpieces, ← filterMap_component?,
      List.filterMap_cons]
    simp only [habsolute, Bool.false_eq_true, if_false]
    by_cases hdot : first = ['.']
    · exact ⟨[.here], by simp, by simp [hdot, component?]⟩
    · refine ⟨[], by simp, ?_⟩
      rw [if_neg hdot]
      cases component? first with
      | none => rfl
      | some c => rfl

/-- Absolute paths are the same when they have the same naming pieces: repeated
slashes and single dots do not count, and two dots do. -/
theorem same_iff_namingPieces (hp : p.isAbsolute) (hq : q.isAbsolute) :
    p.same q ↔ p.namingPieces = q.namingPieces := by
  rw [same_iff, components_of_isAbsolute hp, components_of_isAbsolute hq]
  constructor
  · intro h
    exact componentOf_injective.list_map (List.cons.inj h).2
  · intro h
    rw [h]

theorem isAbsolute_join (hp : p.isAbsolute) (q : Path) : (p.join q).isAbsolute := by
  by_cases hq : q.isAbsolute
  · rwa [join, if_pos hq]
  · have hhead (s : String) : (⟨p.text ++ s⟩ : Path).isAbsolute := by
      rw [isAbsolute, beq_iff_eq] at hp ⊢
      rw [String.toList_append, List.head?_append, hp]
      rfl
    rw [join, if_neg hq]
    split
    · exact hhead q.text
    · exact hhead q.text
    · rw [String.append_assoc]
      exact hhead _

end Path

end Lintmark
