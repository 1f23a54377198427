/-
Waiting for workers, chunk after chunk.  It gives results exactly if every worker ends, and
then those of all workers in their order, wherever the chunks begin.
-/
import Mathlib.Data.Set.List
import Lintmark.FileCheck

namespace Lintmark

variable {α β : Type}

theorem flatten_chunks (size : Nat) (as : List α) : (chunks size as).flatten = as := by
  fun_induction chunks size as with
  | case1 => rfl
  | case2 a as ih =>
      rw [List.flatten_cons, ih, List.cons_append, List.take_append_drop]

variable {workers : List (Attempt α)} {results : List α}

/-- Workers that all end have a list of results. -/
theorem exists_map_ends_iff :
    (∃ results : List α, workers = results.map .ends) ↔ ∀ w ∈ workers, w.Ends := by
  have hrange := Set.ext_iff.mp (Set.range_list_map (@Attempt.ends α)) workers
  simpa [Attempt.Ends, eq_comm] using hrange

theorem joinAll_map_ends (results : List α) :
    joinAll (results.map .ends) = .ends (some results) := by
  have hnever : (results.map Attempt.ends).any Attempt.isNever = false := by
    simp [Attempt.isNever]
  have hbroken : (results.map Attempt.ends).countP Attempt.isBroken = 0 := by
    simp [List.countP_eq_zero, Attempt.isBroken]
  have hresults : (results.map Attempt.ends).filterMap Attempt.result? = results := by
    rw [List.filterMap_map]
    exact List.filterMap_some
  rw [joinAll, hnever, if_neg Bool.false_ne_true, hbroken, hresults]
  rfl

/-- Waiting for workers comes to nothing if one of them never ends.  Otherwise it fails if
one breaks down, and gives the results of all if none does. -/
theorem joinAll_cases (workers : List (Attempt α)) :
    (.never ∈ workers ∧ joinAll workers = .never) ∨
      (.never ∉ workers ∧ .breaks ∈ workers ∧
        (joinAll workers = .ends none ∨ joinAll workers = .breaks)) ∨
      ∃ results, workers = results.map .ends ∧ joinAll workers = .ends (some results) := by
  by_cases hnever : .never ∈ workers
  · have hany : workers.any Attempt.isNever := List.any_eq_true.mpr ⟨_, hnever, rfl⟩
    exact Or.inl ⟨hnever, by rw [joinAll, if_pos hany]⟩
  · have hany : ¬ workers.any Attempt.isNever := by
      simpa [Attempt.isNever_iff] using hnever
    by_cases hbreaks : .breaks ∈ workers
    · have hpos : 0 < workers.countP Attempt.isBroken :=
        List.countP_pos_iff.mpr ⟨_, hbreaks, rfl⟩
      refine Or.inr (Or.inl ⟨hnever, hbreaks, ?_⟩)
      rw [joinAll, if_neg hany]
      split
      · omega
      · exact Or.inl rfl
      · exact Or.inr rfl
    · have hends : ∀ w ∈ workers, w.Ends := by
        intro w hw
        rw [Attempt.ends_iff]
        exact ⟨fun h => hbreaks (h ▸ hw), fun h => hnever (h ▸ hw)⟩
      obtain ⟨results, rfl⟩ := exists_map_ends_iff.mpr hends
      exact Or.inr (Or.inr ⟨results, rfl, joinAll_map_ends results⟩)

theorem joinAll_eq_some_iff :
    joinAll workers = .ends (some results) ↔ workers = results.map .ends := by
  constructor
  · intro h
    rcases joinAll_cases workers with
      ⟨-, hnever⟩ | ⟨-, -, hnone | hbreaks⟩ | ⟨results', rfl, hsome⟩
    · cases hnever.symm.trans h
    · cases hnone.symm.trans h
    · cases hbreaks.symm.trans h
    · cases hsome.symm.trans h
      rfl
  · rintro rfl
    exact joinAll_map_ends results

theorem joinAll_map (f : α → β) (workers : List (Attempt α)) :
    (joinAll workers).map (Option.map (List.map f)) =
      joinAll (workers.map (Attempt.map f)) := by
  have hnever : (workers.map (Attempt.map f)).any Attempt.isNever =
      workers.any Attempt.isNever := by
    rw [List.any_map]
    congr 1
    funext w
    cases w <;> rfl
  have hbroken : (workers.map (Attempt.map f)).countP Attempt.isBroken =
      workers.countP Attempt.isBroken := by
    rw [List.countP_map]
    congr 1
    funext w
    cases w <;> rfl
  have hresults : (workers.map (Attempt.map f)).filterMap Attempt.result? =
      (workers.filterMap Attempt.result?).map f := by
    rw [List.filterMap_map, List.map_filterMap]
    congr 1
    funext w
    cases w <;> rfl
  rw [joinAll, joinAll, hnever, hbroken, hresults]
  split
  · rfl
  · split <;> rfl

variable {chunks : List (List (Attempt α))}

/-- Chunks give results exactly if all their workers end. -/
theorem joinChunks_eq_some_iff :
    joinChunks chunks = .ends (some results) ↔ chunks.flatten = results.map .ends := by
  induction chunks generalizing results with
  | nil => cases results <;> simp [joinChunks]
  | cons chunk rest ih =>
      rw [List.flatten_cons, List.append_eq_map_iff]
      constructor
      · intro h
        obtain ⟨first?, hjoin, hrest⟩ := Attempt.bind_eq_ends_iff.mp h
        cases first? with
        | none => cases hrest
        | some first =>
            obtain ⟨later?, hlater, hsome⟩ := Attempt.map_eq_ends_iff.mp hrest
            obtain ⟨later, rfl, rfl⟩ := Option.map_eq_some_iff.mp hsome
            exact ⟨first, later, rfl, (joinAll_eq_some_iff.mp hjoin).symm,
              (ih.mp hlater).symm⟩
      · rintro ⟨first, later, rfl, hfirst, hlater⟩
        rw [joinChunks, joinAll_eq_some_iff.mpr hfirst.symm]
        simp only [Attempt.bind, ih.mpr hlater.symm, Attempt.map_ends, Option.map_some]

/-- Where nobody breaks down, chunks give results unless somebody never ends. -/
theorem joinChunks_of_unbroken (h : .breaks ∉ chunks.flatten) :
    joinChunks chunks = .never ∨ ∃ results, joinChunks chunks = .ends (some results) := by
  induction chunks with
  | nil => exact Or.inr ⟨[], rfl⟩
  | cons chunk rest ih =>
      rw [List.flatten_cons, List.mem_append, not_or] at h
      rw [joinChunks]
      rcases joinAll_cases chunk with
        ⟨-, hjoin⟩ | ⟨-, hbreaks, -⟩ | ⟨first, -, hjoin⟩
      · exact Or.inl (by rw [hjoin]; rfl)
      · exact absurd hbreaks h.1
      · rw [hjoin]
        rcases ih h.2 with hnever | ⟨later, hlater⟩
        · exact Or.inl (by simp only [Attempt.bind, hnever, Attempt.map])
        · exact Or.inr ⟨first ++ later, by simp only [Attempt.bind, hlater, Attempt.map_ends,
            Option.map_some]⟩

/-- Where everybody ends or breaks down, waiting for chunks comes to an end. -/
theorem joinChunks_ne_never (h : .never ∉ chunks.flatten) : joinChunks chunks ≠ .never := by
  induction chunks with
  | nil => exact nofun
  | cons chunk rest ih =>
      rw [List.flatten_cons, List.mem_append, not_or] at h
      rw [joinChunks]
      rcases joinAll_cases chunk with
        ⟨hnever, -⟩ | ⟨-, -, hjoin | hjoin⟩ | ⟨first, -, hjoin⟩
      · exact absurd hnever h.1
      · rw [hjoin]
        exact nofun
      · rw [hjoin]
        exact nofun
      · rw [hjoin]
        exact mt Attempt.map_eq_never_iff.mp (ih h.2)

theorem joinChunks_map (f : α → β) (chunks : List (List (Attempt α))) :
    (joinChunks chunks).map (Option.map (List.map f)) =
      joinChunks (chunks.map (List.map (Attempt.map f))) := by
  induction chunks with
  | nil => rfl
  | cons chunk rest ih =>
      rw [List.map_cons, joinChunks, joinChunks, ← joinAll_map, ← ih]
      cases joinAll chunk with
      | breaks => rfl
      | never => rfl
      | ends first? =>
          cases first? with
          | none => rfl
          | some first =>
              cases joinChunks rest with
              | breaks => rfl
              | never => rfl
              | ends later? => cases later? <;> simp [Attempt.bind]

end Lintmark
