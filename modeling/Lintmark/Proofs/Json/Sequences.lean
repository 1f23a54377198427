/-
Reading things with commas between them.  The items of a list and the members of
an object are read by one kind of loop, and what such a loop takes is what the
grammar separates by commas, up to the closing bracket.
-/
import Mathlib.Data.List.TakeWhile
import Mathlib.Tactic.Tauto
import Lintmark.Proofs.Json.Grammar

namespace Lintmark.Json

variable {α : Type} {cs rest s : List Char} {c close : Char}

theorem isSpace_iff :
    isSpace c ↔ c = ' ' ∨ c = '\t' ∨ c = '\n' ∨ c = '\r' := by
  simp only [isSpace, Bool.or_eq_true, beq_iff_eq]
  tauto

theorem skipSpace_append (hs : Space s) (cs : List Char) :
    skipSpace (s ++ cs) = skipSpace cs :=
  List.dropWhile_append_of_pos fun c hc => isSpace_iff.2 (hs c hc)

theorem skipSpace_cons (hc : ¬ isSpace c) (cs : List Char) :
    skipSpace (c :: cs) = c :: cs :=
  List.dropWhile_cons_of_neg hc

theorem exists_space (cs : List Char) :
    ∃ s, Space s ∧ cs = s ++ skipSpace cs :=
  ⟨cs.takeWhile isSpace, fun _ hc => isSpace_iff.1 (List.mem_takeWhile_imp hc),
    List.takeWhile_append_dropWhile.symm⟩

/-- Go on with the next thing, or end at the closing bracket.  A comma stands in
front of every thing but the first. -/
def sequence (close : Char) (ended unexpected : Cause)
    (next : List Char → Read (List α)) (first : Bool) (cs : List Char) :
    Read (List α) :=
  match skipSpace cs with
  | [] => failOn ended []
  | c :: rest =>
    if c = close then .ok ([], rest)
    else if first then next (c :: rest)
    else if c = ',' then
      match skipSpace rest with
      | [] => failOn .eofInValue []
      | d :: rest =>
        if d = close then failOn .trailingComma (d :: rest)
        else next (d :: rest)
    else failOn unexpected (c :: rest)

variable {ended unexpected : Cause} {next : List Char → Read (List α)}
  {first : Bool} {as : List α}

theorem sequence_close (hs : Space s) (hclose : ¬ isSpace close)
    (rest : List Char) :
    sequence close ended unexpected next first (s ++ close :: rest) =
      .ok ([], rest) := by
  simp [sequence, skipSpace_append hs, skipSpace_cons hclose]

theorem sequence_first (h : skipSpace cs = c :: rest) (hc : c ≠ close) :
    sequence close ended unexpected next true cs = next (c :: rest) := by
  simp [sequence, h, hc]

theorem sequence_comma (hs : Space s) (hclose : ',' ≠ close)
    (h : skipSpace cs = c :: rest) (hc : c ≠ close) :
    sequence close ended unexpected next false (s ++ ',' :: cs) =
      next (c :: rest) := by
  have hcomma : ¬ isSpace ',' = true := by decide
  simp [sequence, skipSpace_append hs, skipSpace_cons hcomma, hclose, h, hc]

theorem sequence_sound
    (h : sequence close ended unexpected next first cs = .ok (as, rest)) :
    (as = [] ∧ ∃ s, Space s ∧ cs = s ++ close :: rest) ∨
      ∃ s cs', Space s ∧ next cs' = .ok (as, rest) ∧
        if first then cs = s ++ cs'
        else ∃ s', Space s' ∧ cs = s ++ ',' :: (s' ++ cs') := by
  obtain ⟨s, hs, hcs⟩ := exists_space cs
  rw [sequence] at h
  split at h
  · cases h
  · rename_i c rest' hskip
    rw [hskip] at hcs
    split at h
    · rename_i hclose
      obtain ⟨rfl, rfl⟩ := Prod.mk.inj (Except.ok.inj h)
      exact Or.inl ⟨rfl, s, hs, by rw [hcs, hclose]⟩
    · split at h
      · rename_i hfirst
        refine Or.inr ⟨s, c :: rest', hs, h, ?_⟩
        rw [if_pos hfirst, hcs]
      · rename_i hfirst
        split at h
        · rename_i hcomma
          obtain ⟨s', hs', hrest⟩ := exists_space rest'
          split at h
          · cases h
          · rename_i d rest'' hskip'
            rw [hskip'] at hrest
            split at h
            · cases h
            · refine Or.inr ⟨s, d :: rest'', hs, h, ?_⟩
              rw [if_neg hfirst]
              exact ⟨s', hs', by rw [hcs, hcomma, hrest]⟩
        · cases h

/-- A loop that reads things one by one, each step with less fuel. -/
structure IsLoop (close : Char) (one : Nat → List Char → Read α)
    (loop : Nat → Bool → List Char → Read (List α))
    (step : Nat → List Char → Read (List α)) : Prop where
  close_ne : ',' ≠ close
  close_notSpace : ¬ isSpace close
  loop_zero : ∀ first cs x, loop 0 first cs ≠ .ok x
  step_zero : ∀ cs x, step 0 cs ≠ .ok x
  loop_succ : ∃ ended unexpected, ∀ fuel first cs,
    loop (fuel + 1) first cs =
      sequence close ended unexpected (step fuel) first cs
  step_succ : ∀ fuel cs,
    step (fuel + 1) cs =
      (one fuel cs).andThen fun a rest =>
        (loop fuel false rest).andThen fun as rest => .ok (a :: as, rest)

section Loop

variable {one : Nat → List Char → Read α}
  {loop : Nat → Bool → List Char → Read (List α)}
  {step : Nat → List Char → Read (List α)}
  {Written : α → List Char → Prop}

/-- What is read is written so, with any space around it. -/
def Sound (read : List Char → Read α) (Written : α → List Char → Prop) : Prop :=
  ∀ cs a rest, read cs = .ok (a, rest) →
    ∃ w, cs = w ++ rest ∧
      ∀ s s', Space s → Space s' → Written a (s ++ w ++ s')

/-- The text is read behind its space and up to what ends it, but for space. -/
def Complete (read : List Char → Read α) (close : Char) (a : α)
    (w : List Char) : Prop :=
  ∀ stop rest, stop = ',' ∨ stop = close →
    ∃ c cs s, skipSpace (w ++ stop :: rest) = c :: cs ∧ c ≠ close ∧ Space s ∧
      read (c :: cs) = .ok (a, s ++ stop :: rest)

theorem IsLoop.step_sound (h : IsLoop close one loop step) {fuel : Nat}
    (hone : ∀ fuel' < fuel, Sound (one fuel') Written)
    (hstep : step fuel cs = .ok (as, rest)) :
    ∃ w, cs = w ++ close :: rest ∧
      as ≠ [] ∧ ∀ s, Space s → Separated Written as (s ++ w) := by
  induction fuel using Nat.strongRecOn generalizing cs as with
  | ind fuel ih =>
      cases fuel with
      | zero => exact absurd hstep (h.step_zero _ _)
      | succ fuel =>
          rw [h.step_succ] at hstep
          obtain ⟨a, rest', ha, hstep⟩ := Read.andThen_eq_ok.1 hstep
          obtain ⟨as', rest'', hloop, hstep⟩ := Read.andThen_eq_ok.1 hstep
          obtain ⟨rfl, rfl⟩ := Prod.mk.inj (Except.ok.inj hstep)
          obtain ⟨w, rfl, hw⟩ := hone fuel (Nat.lt_succ_self _) _ _ _ ha
          cases fuel with
          | zero => exact absurd hloop (h.loop_zero _ _ _)
          | succ fuel =>
              obtain ⟨ended, unexpected, hsucc⟩ := h.loop_succ
              rw [hsucc] at hloop
              rcases sequence_sound hloop with
                ⟨rfl, t, ht, rfl⟩ | ⟨t, cs', ht, hnext, t', ht', rfl⟩
              · refine ⟨w ++ t, by simp, by simp, fun s hs => ?_⟩
                rw [← List.append_assoc]
                exact .one (hw s t hs ht)
              · obtain ⟨ws, rfl, hnil, hws⟩ := ih fuel (by omega)
                  (fun fuel' hlt => hone fuel' (by omega)) hnext
                refine ⟨w ++ t ++ ',' :: (t' ++ ws), by simp, by simp,
                  fun s hs => ?_⟩
                cases as' with
                | nil => exact absurd rfl hnil
                | cons b bs =>
                    rw [← List.append_assoc, ← List.append_assoc]
                    exact .more (hw s t hs ht) (hws t' ht')

theorem IsLoop.loop_sound (h : IsLoop close one loop step) {fuel : Nat}
    (hone : ∀ fuel' < fuel, Sound (one fuel') Written)
    (hloop : loop fuel true cs = .ok (as, rest)) :
    ∃ w, cs = w ++ close :: rest ∧ Separated Written as w := by
  cases fuel with
  | zero => exact absurd hloop (h.loop_zero _ _ _)
  | succ fuel =>
      obtain ⟨ended, unexpected, hsucc⟩ := h.loop_succ
      rw [hsucc] at hloop
      rcases sequence_sound hloop with
        ⟨rfl, s, hs, rfl⟩ | ⟨s, cs', hs, hnext, hcs⟩
      · exact ⟨s, rfl, .none hs⟩
      · obtain ⟨w, rfl, -, hw⟩ := h.step_sound
          (fun fuel' hlt => hone fuel' (by omega)) hnext
        exact ⟨s ++ w, by simpa using hcs, hw s hs⟩

theorem IsLoop.step_complete (h : IsLoop close one loop step) {a : α}
    {w : List Char} (hw : Separated Written (a :: as) w) {fuel : Nat}
    (hfuel : 3 * w.length + 2 ≤ fuel)
    (hone : ∀ b ∈ a :: as, ∀ w', w'.length ≤ w.length → Written b w' →
      ∀ fuel, 3 * w'.length ≤ fuel → Complete (one fuel) close b w')
    (rest : List Char) :
    ∃ c cs, skipSpace (w ++ close :: rest) = c :: cs ∧ c ≠ close ∧
      step fuel (c :: cs) = .ok (a :: as, rest) := by
  obtain ⟨ended, unexpected, hsucc⟩ := h.loop_succ
  induction as generalizing a w fuel with
  | nil =>
      obtain ⟨fuel, rfl⟩ : ∃ k, fuel = k + 2 := ⟨fuel - 2, by omega⟩
      cases hw with
      | one hw =>
          obtain ⟨c, cs, s, hskip, hc, hs, hread⟩ :=
            hone a List.mem_cons_self w (Nat.le_refl _) hw (fuel + 1) (by omega)
              close rest (Or.inr rfl)
          refine ⟨c, cs, hskip, hc, ?_⟩
          rw [h.step_succ, hread, Read.andThen_ok, hsucc,
            sequence_close hs h.close_notSpace]
          rfl
  | cons b as ih =>
      obtain ⟨fuel, rfl⟩ : ∃ k, fuel = k + 2 := ⟨fuel - 2, by omega⟩
      cases hw with
      | @more _ _ _ w ws hw hws =>
          simp only [List.length_append, List.length_cons] at hfuel hone
          obtain ⟨c, cs, s, hskip, hc, hs, hread⟩ :=
            hone a List.mem_cons_self w (by omega) hw (fuel + 1) (by omega)
              ',' (ws ++ close :: rest) (Or.inl rfl)
          have henough : 3 * ws.length + 2 ≤ fuel := by omega
          obtain ⟨d, ds, hskip', hd, hstep⟩ :=
            ih hws henough fun b' hb' w' hle =>
              hone b' (List.mem_cons_of_mem a hb') w' (by omega)
          refine ⟨c, cs, by simpa using hskip, hc, ?_⟩
          rw [h.step_succ, hread, Read.andThen_ok, hsucc,
            sequence_comma hs h.close_ne hskip' hd, hstep]
          rfl

theorem IsLoop.loop_complete (h : IsLoop close one loop step) {w : List Char}
    (hw : Separated Written as w) {fuel : Nat} (hfuel : 3 * w.length + 3 ≤ fuel)
    (hone : ∀ a ∈ as, ∀ w', w'.length ≤ w.length → Written a w' →
      ∀ fuel, 3 * w'.length ≤ fuel → Complete (one fuel) close a w')
    (rest : List Char) :
    loop fuel true (w ++ close :: rest) = .ok (as, rest) := by
  obtain ⟨ended, unexpected, hsucc⟩ := h.loop_succ
  obtain ⟨fuel, rfl⟩ : ∃ k, fuel = k + 1 := ⟨fuel - 1, by omega⟩
  rw [hsucc]
  cases as with
  | nil =>
      cases hw with
      | none hs => exact sequence_close hs h.close_notSpace rest
  | cons a as =>
      have henough : 3 * w.length + 2 ≤ fuel := by omega
      obtain ⟨c, cs, hskip, hc, hstep⟩ := h.step_complete hw henough hone rest
      rw [sequence_first hskip hc, hstep]

end Loop

end Lintmark.Json
