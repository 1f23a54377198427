/-
Reading values.  What the reader takes is a value of the grammar whose lists and
objects do not nest too deep, and every such value is taken wherever it stands.
So a text is read as a value exactly when it is a text of that value.
-/
import Lintmark.Proofs.Json.Numbers
import Lintmark.Proofs.Json.Sequences
import Lintmark.Proofs.Json.Strings
import Lintmark.Text.Character

namespace Lintmark.Json

variable {v : Value} {c : Char} {cs w rest : List Char} {fuel depth levels : Nat}

theorem word_eq_ok_iff {cs' : List Char} :
    word w cs = .ok ((), cs') ↔ cs = w ++ cs' := by
  induction w generalizing cs with
  | nil => simp [word]
  | cons d w ih =>
      cases cs with
      | nil => simp [word, failBehind]
      | cons c cs =>
          by_cases hc : c = d
          · simp [word, hc, ih]
          · simp [word, hc, failOn]

theorem itemsFrom_succ (fuel depth : Nat) (first : Bool) (cs : List Char) :
    itemsFrom (fuel + 1) depth first cs =
      sequence ']' .eofInList .listCommaOrEndExpected (itemFrom fuel depth)
        first cs := by
  rw [itemsFrom, sequence]
  cases hskip : skipSpace cs with
  | nil => rfl
  | cons c rest =>
      by_cases hclose : c = ']'
      · simp [hclose]
      · cases first with
        | true => simp [hclose]
        | false =>
            by_cases hcomma : c = ','
            · subst hcomma
              simp only [hclose, if_false, Bool.false_eq_true, if_true]
              cases hskip' : skipSpace rest with
              | nil => rfl
              | cons d rest' =>
                  by_cases hclose' : d = ']'
                  · simp [hclose']
                  · simp [hclose']
            · simp [hclose, hcomma]

/-- Read one member, the space in front of its name already skipped. -/
def memberAt (depth fuel : Nat) : List Char → Read (String × Value)
  | '"' :: rest =>
    (string rest).andThen fun name rest =>
      match skipSpace rest with
      | [] => failOn .eofInObject []
      | ':' :: rest =>
        (valueFrom fuel depth rest).andThen fun v rest => .ok ((name, v), rest)
      | rest => failOn .colonExpected rest
  | cs => failOn .keyNotString cs

theorem membersFrom_succ (fuel depth : Nat) (first : Bool) (cs : List Char) :
    membersFrom (fuel + 1) depth first cs =
      sequence '}' .eofInObject .objectCommaOrEndExpected
        (memberFrom fuel depth) first cs := by
  rw [membersFrom, sequence]
  cases hskip : skipSpace cs with
  | nil => rfl
  | cons c rest =>
      by_cases hclose : c = '}'
      · simp [hclose]
      · cases first with
        | true => simp [hclose]
        | false =>
            by_cases hcomma : c = ','
            · subst hcomma
              simp only [hclose, if_false, Bool.false_eq_true, if_true]
              cases hskip' : skipSpace rest with
              | nil => rfl
              | cons d rest' =>
                  by_cases hclose' : d = '}'
                  · simp [hclose']
                  · simp [hclose']
            · simp [hclose, hcomma]

theorem memberFrom_succ (fuel depth : Nat) (cs : List Char) :
    memberFrom (fuel + 1) depth cs =
      (memberAt depth fuel cs).andThen fun m rest =>
        (membersFrom fuel depth false rest).andThen fun ms rest =>
          .ok (m :: ms, rest) := by
  rw [memberFrom.eq_def]
  dsimp only
  split
  · rw [memberAt, Read.andThen_assoc]
    congr 1
    funext name rest
    -- Both sides look at the character behind the name.
    cases hskip : skipSpace rest with
    | nil => rfl
    | cons c rest' =>
        by_cases hcolon : c = ':'
        · simp only [hcolon, Read.andThen_assoc, Read.andThen_ok]
        · simp [hcolon]
          rfl
  · rename_i hquote
    rw [memberAt.eq_2 _ _ _ hquote]
    rfl

theorem items_isLoop (depth : Nat) :
    IsLoop ']' (fun fuel => valueFrom fuel depth)
      (fun fuel => itemsFrom fuel depth) (fun fuel => itemFrom fuel depth) where
  close_ne := by decide
  close_notSpace := by decide
  loop_zero := by simp [itemsFrom, failBehind]
  step_zero := by simp [itemFrom, failBehind]
  loop_succ := ⟨_, _, fun fuel first cs => itemsFrom_succ fuel depth first cs⟩
  step_succ := fun fuel cs => itemFrom.eq_2 depth cs fuel

theorem members_isLoop (depth : Nat) :
    IsLoop '}' (memberAt depth) (fun fuel => membersFrom fuel depth)
      (fun fuel => memberFrom fuel depth) where
  close_ne := by decide
  close_notSpace := by decide
  loop_zero := by simp [membersFrom, failBehind]
  step_zero := by simp [memberFrom, failBehind]
  loop_succ := ⟨_, _, fun fuel first cs => membersFrom_succ fuel depth first cs⟩
  step_succ := fun fuel cs => memberFrom_succ fuel depth cs

theorem Separated.and {α : Type} {P : α → List Char → Prop} {Q : α → Prop}
    {as : List α} (h : Separated (fun a w => P a w ∧ Q a) as w) :
    Separated P as w ∧ ∀ a ∈ as, Q a := by
  induction h with
  | none hs => exact ⟨.none hs, by simp⟩
  | one h => exact ⟨.one h.1, by simpa using h.2⟩
  | more h _ ih => exact ⟨.more h.1 ih.1, List.forall_mem_cons.2 ⟨h.2, ih.2⟩⟩

/-- A value with space around it, its lists and objects within some levels. -/
def Nested (levels : Nat) (v : Value) (w : List Char) : Prop :=
  PaddedText v w ∧ v.Within levels

def NestedMember (levels : Nat) (m : String × Value) (w : List Char) : Prop :=
  MemberText m w ∧ m.2.Within levels

theorem memberAt_sound (hvalue : Sound (valueFrom fuel depth) (Nested levels)) :
    Sound (memberAt depth fuel) (NestedMember levels) := by
  intro cs m rest h
  rw [memberAt.eq_def] at h
  split at h
  · obtain ⟨name, behind, hname, hmore⟩ := Read.andThen_eq_ok.1 h
    obtain ⟨k, hk, hcs⟩ := string_eq_ok_iff.1 hname
    obtain ⟨s, hs, hbehind⟩ := exists_space behind
    split at hmore
    · cases hmore
    · rename_i hcolon
      obtain ⟨v, hv, rfl⟩ := Read.andThen_pure_eq_ok.1 hmore
      obtain ⟨w, rfl, hw⟩ := hvalue _ _ _ hv
      refine ⟨k ++ s ++ ':' :: w, by rw [hcs, hbehind, hcolon]; simp, ?_⟩
      intro t t' ht ht'
      obtain ⟨htext, hwithin⟩ := hw [] t' Space.nil ht'
      refine ⟨?_, hwithin⟩
      have hmember := MemberText.named ht hk hs htext
      simpa using hmember
    · cases hmore
  · cases h

/-- A step of reading a value, given that the values inside it are sound. -/
theorem valueFrom_text
    (hinner : ∀ fuel' < fuel, Sound (valueFrom fuel' (depth - 1)) (Nested (depth - 2)))
    (h : valueFrom (fuel + 1) depth cs = .ok (v, rest)) :
    ∃ w, skipSpace cs = w ++ rest ∧ ValueText v w ∧ v.Within (depth - 1) := by
  rw [valueFrom.eq_def] at h
  dsimp only at h
  split at h
  · cases h
  · rename_i hskip
    obtain ⟨_, hword, rfl⟩ := Read.andThen_pure_eq_ok.1 h
    rw [word_eq_ok_iff.1 hword] at hskip
    exact ⟨['n', 'u', 'l', 'l'], hskip, .null, by simp [Value.Within]⟩
  · rename_i hskip
    obtain ⟨_, hword, rfl⟩ := Read.andThen_pure_eq_ok.1 h
    rw [word_eq_ok_iff.1 hword] at hskip
    exact ⟨['t', 'r', 'u', 'e'], hskip, .true, by simp [Value.Within]⟩
  · rename_i hskip
    obtain ⟨_, hword, rfl⟩ := Read.andThen_pure_eq_ok.1 h
    rw [word_eq_ok_iff.1 hword] at hskip
    exact ⟨['f', 'a', 'l', 's', 'e'], hskip, .false, by simp [Value.Within]⟩
  · rename_i hskip
    obtain ⟨s, hstring, rfl⟩ := Read.andThen_pure_eq_ok.1 h
    obtain ⟨w, hw, hcs⟩ := string_eq_ok_iff.1 hstring
    exact ⟨w, by rw [hskip, hcs], .string hw, by simp [Value.Within]⟩
  · rename_i hskip
    split at h
    · cases h
    · rename_i hdepth
      obtain ⟨vs, hvs, rfl⟩ := Read.andThen_pure_eq_ok.1 h
      obtain ⟨w, rfl, hw⟩ := (items_isLoop _).loop_sound hinner hvs
      exact ⟨'[' :: w ++ [']'], by rw [hskip]; simp, .array hw.and.1,
        Value.within_array.2 ⟨depth - 2, by omega, hw.and.2⟩⟩
  · rename_i hskip
    split at h
    · cases h
    · rename_i hdepth
      obtain ⟨ms, hms, rfl⟩ := Read.andThen_pure_eq_ok.1 h
      obtain ⟨w, rfl, hw⟩ := (members_isLoop _).loop_sound
        (fun fuel' hlt => memberAt_sound (hinner fuel' hlt)) hms
      exact ⟨'{' :: w ++ ['}'], by rw [hskip]; simp, .object hw.and.1,
        Value.within_object.2 ⟨depth - 2, by omega, hw.and.2⟩⟩
  · rename_i hskip
    split at h
    · obtain ⟨n, hnumber, rfl⟩ := Read.andThen_pure_eq_ok.1 h
      obtain ⟨w, hw, hcs, -⟩ := number_takes hnumber
      exact ⟨w, by rw [hskip, hcs], .number hw, by simp [Value.Within]⟩
    · cases h

theorem valueFrom_sound (fuel depth : Nat) :
    Sound (valueFrom fuel depth) (Nested (depth - 1)) := by
  -- Every value inside is read with less fuel, however deep it stands.
  induction fuel using Nat.strongRecOn generalizing depth with
  | ind fuel ih =>
      intro cs v rest h
      cases fuel with
      | zero => simp [valueFrom, failBehind] at h
      | succ fuel =>
          obtain ⟨s, hs, hcs⟩ := exists_space cs
          obtain ⟨w, hskip, hw, hwithin⟩ :=
            valueFrom_text (fun fuel' hlt => ih fuel' (by omega) _) h
          refine ⟨s ++ w, by rw [hcs, hskip, List.append_assoc], ?_⟩
          intro t t' ht ht'
          refine ⟨?_, hwithin⟩
          have hpadded := PaddedText.padded (ht.append hs) hw ht'
          simpa using hpadded

theorem not_isSpace_of_number (h : c = '-' ∨ c.isDigit) : ¬ isSpace c := by
  intro hspace
  rcases isSpace_iff.mp hspace with rfl | rfl | rfl | rfl <;> simp at h

theorem isBlank_of_isSpace (h : isSpace c) : Text.isBlank c := by
  rcases isSpace_iff.1 h with rfl | rfl | rfl | rfl <;> decide

theorem not_isBlank_of_isDigit (h : c.isDigit) : ¬ Text.isBlank c := by
  have hdigits : ∀ d < 10, ¬ Text.isBlank (Nat.digitChar d) := by decide
  rw [← digitChar_digitValue h]
  exact hdigits _ (digitValue_lt h)

/-- A value starts with what is neither blank nor a closing bracket. -/
theorem ValueText.head (h : ValueText v w) :
    ∃ c cs, w = c :: cs ∧ ¬ Text.isBlank c ∧ c ≠ ']' ∧ c ≠ '}' := by
  cases h with
  | number h =>
      obtain ⟨c, cs, rfl, hc⟩ := h.numeral.head
      refine ⟨c, cs, rfl, ?_⟩
      rcases hc with rfl | hc
      · decide
      · refine ⟨not_isBlank_of_isDigit hc, ?_, ?_⟩
        · rintro rfl
          simp at hc
        · rintro rfl
          simp at hc
  | string h =>
      obtain ⟨h⟩ := h
      exact ⟨'"', _, rfl, by decide⟩
  | null => exact ⟨'n', _, rfl, by decide⟩
  | true => exact ⟨'t', _, rfl, by decide⟩
  | false => exact ⟨'f', _, rfl, by decide⟩
  | array h => exact ⟨'[', _, rfl, by decide⟩
  | object h => exact ⟨'{', _, rfl, by decide⟩

theorem valueFrom_number (hc : c = '-' ∨ c.isDigit) :
    valueFrom (fuel + 1) depth (c :: cs) =
      (number (c :: cs)).andThen fun n rest => .ok (.number n, rest) := by
  have hdigit : (c = '-' || isDigit c) = true := by
    rw [Bool.or_eq_true, decide_eq_true_eq]
    exact hc
  rw [valueFrom, skipSpace_cons (not_isSpace_of_number hc)]
  split
  · rename_i heq
    cases heq
  all_goals rename_i heq; obtain ⟨rfl, rfl⟩ := List.cons.inj heq
  · simp at hc
  · simp at hc
  · simp at hc
  · simp at hc
  · simp at hc
  · simp at hc
  · exact if_pos hdigit

theorem Stops.space_append {s : List Char} (hs : Space s) (h : Stops rest) :
    Stops (s ++ rest) := by
  cases s with
  | nil => exact h
  | cons c s =>
      refine Stops.cons ?_ _
      rcases hs c List.mem_cons_self with rfl | rfl | rfl | rfl <;> decide

theorem stops_stop {stop close : Char} (hclose : close = ']' ∨ close = '}')
    (hstop : stop = ',' ∨ stop = close) (rest : List Char) :
    Stops (stop :: rest) := by
  refine Stops.cons ?_ rest
  rcases hstop with rfl | rfl
  · decide
  · rcases hclose with rfl | rfl <;> decide

/-- The value is read from its text wherever that stands, with enough fuel. -/
def ReadFrom (v : Value) (w : List Char) : Prop :=
  ∀ levels fuel rest, v.Within levels → 3 * w.length ≤ fuel → Stops rest →
    valueFrom fuel (levels + 1) (w ++ rest) = .ok (v, rest)

/-- What is read wherever it stands is read with space around it, too. -/
theorem Complete.padded {α : Type} {read : List Char → Read α} {a : α} {close : Char}
    {s s' : List Char} (hclose : close = ']' ∨ close = '}') (hs : Space s) (hs' : Space s')
    (hhead : ∃ c cs, w = c :: cs ∧ ¬ isSpace c ∧ c ≠ ']' ∧ c ≠ '}')
    (hread : ∀ rest, Stops rest → read (w ++ rest) = .ok (a, rest)) :
    Complete read close a (s ++ w ++ s') := by
  intro stop rest hstop
  obtain ⟨c, cs, rfl, hspace, hlist, hobject⟩ := hhead
  have hstops := (stops_stop hclose hstop rest).space_append hs'
  refine ⟨c, cs ++ (s' ++ stop :: rest), s', ?_, ?_, hs', hread _ hstops⟩
  · simp only [List.append_assoc, skipSpace_append hs, List.cons_append,
      skipSpace_cons hspace]
  · rcases hclose with rfl | rfl
    · exact hlist
    · exact hobject

theorem PaddedText.complete {close : Char} (hclose : close = ']' ∨ close = '}')
    (h : PaddedText v w)
    (hread : ∀ w', w'.length ≤ w.length → ValueText v w' → ReadFrom v w')
    (hwithin : v.Within levels) (hfuel : 3 * w.length ≤ fuel) :
    Complete (valueFrom fuel (levels + 1)) close v w := by
  cases h with
  | @padded _ s w s' hs hv hs' =>
      obtain ⟨c, cs, hcs, hblank, hbrackets⟩ := hv.head
      simp only [List.length_append] at hfuel hread
      apply Complete.padded hclose hs hs'
        ⟨c, cs, hcs, mt isBlank_of_isSpace hblank, hbrackets⟩
      intro rest hstops
      exact hread w (by omega) hv levels fuel rest hwithin (by omega) hstops

theorem skipSpace_skipSpace (cs : List Char) :
    skipSpace (skipSpace cs) = skipSpace cs := by
  cases hskip : skipSpace cs with
  | nil => rfl
  | cons c rest =>
      have hc : ¬ isSpace c := by
        have hhead := List.head?_dropWhile_not isSpace cs
        rw [skipSpace] at hskip
        simpa [hskip] using hhead
      rw [skipSpace_cons hc]

theorem valueFrom_skipSpace (fuel depth : Nat) (cs : List Char) :
    valueFrom (fuel + 1) depth (skipSpace cs) = valueFrom (fuel + 1) depth cs := by
  rw [valueFrom, valueFrom, skipSpace_skipSpace]

theorem StringText.complete {s : String} (h : StringText s w) (rest : List Char) :
    ∃ cs, w ++ rest = '"' :: cs ∧ string cs = .ok (s, rest) := by
  have htext := h
  cases h with
  | quoted h => exact ⟨_, rfl, string_eq_ok_iff.2 ⟨_, htext, rfl⟩⟩

/-- The name of a member is what stands behind the space in front of it. -/
theorem skipSpace_named {s k s' : List Char} (hs : Space s)
    (hk : k ++ (s' ++ ':' :: (w ++ rest)) = '"' :: cs) :
    skipSpace (s ++ k ++ s' ++ ':' :: w ++ rest) = '"' :: cs := by
  have hquote : ¬ isSpace '"' := by decide
  have htext : s ++ k ++ s' ++ ':' :: w ++ rest = s ++ '"' :: cs := by
    rw [← hk]
    simp
  rw [htext, skipSpace_append hs, skipSpace_cons hquote]

theorem MemberText.complete {m : String × Value} (h : MemberText m w)
    (hread : ∀ w', w'.length ≤ w.length → ValueText m.2 w' → ReadFrom m.2 w')
    (hwithin : m.2.Within levels) (hfuel : 3 * w.length ≤ fuel) :
    Complete (memberAt (levels + 1) fuel) '}' m w := by
  intro stop rest hstop
  cases h with
  | @named name v s k s' w hs hk hs' hv =>
      simp only [List.length_append, List.length_cons] at hfuel hread
      obtain ⟨fuel, rfl⟩ : ∃ n, fuel = n + 1 := ⟨fuel - 1, by omega⟩
      obtain ⟨d, ds, s'', hskip, -, hs'', hvalue⟩ :=
        hv.complete (Or.inr rfl) (fun w' hle => hread w' (by omega)) hwithin
          (by omega : 3 * w.length ≤ fuel + 1) stop rest hstop
      obtain ⟨cs, hcs, hname⟩ := hk.complete (s' ++ ':' :: (w ++ stop :: rest))
      have hcolon : ¬ isSpace ':' := by decide
      refine ⟨'"', cs, s'', skipSpace_named hs hcs, by decide, hs'', ?_⟩
      rw [← hskip, valueFrom_skipSpace] at hvalue
      rw [memberAt, hname, Read.andThen_ok, skipSpace_append hs',
        skipSpace_cons hcolon]
      exact congrArg (Read.andThen · _) hvalue

theorem ValueText.readFrom (h : ValueText v w) : ReadFrom v w := by
  -- The texts inside are shorter.  Fuel cannot carry the induction, as it has to
  -- be enough for each of them.
  induction hlength : w.length using Nat.strongRecOn generalizing v w with
  | ind n ih =>
      intro levels fuel rest hwithin hfuel hstops
      have hpos : 0 < w.length := by
        obtain ⟨c, cs, rfl, -⟩ := h.head
        exact Nat.succ_pos _
      obtain ⟨fuel, rfl⟩ : ∃ k, fuel = k + 1 := ⟨fuel - 1, by omega⟩
      have hinner (v' : Value) (w' : List Char) (hle : w'.length < w.length)
          (h' : ValueText v' w') : ReadFrom v' w' :=
        ih w'.length (by omega) h' rfl
      cases h with
      | null =>
          rw [valueFrom]
          rfl
      | true =>
          rw [valueFrom]
          rfl
      | false =>
          rw [valueFrom]
          rfl
      | number h =>
          obtain ⟨c, cs, rfl, hc⟩ := h.numeral.head
          rw [List.cons_append, valueFrom_number hc, ← List.cons_append,
            h.takes rest hstops]
          rfl
      | string h =>
          obtain ⟨cs, hcs, hstring⟩ := h.complete rest
          rw [hcs, valueFrom]
          exact congrArg (Read.andThen · _) hstring
      | @array vs w h =>
          obtain ⟨levels, rfl, hwithin⟩ := Value.within_array.1 hwithin
          simp only [List.length_append, List.length_cons, List.length_nil]
            at hfuel hinner
          have hloop := (items_isLoop (levels + 1)).loop_complete h
            (by omega : 3 * w.length + 3 ≤ fuel)
            (fun a ha w' hle ha' fuel' hfuel' =>
              ha'.complete (Or.inl rfl) (fun w'' hle' => hinner a w'' (by omega))
                (hwithin a ha) hfuel') rest
          have htext : '[' :: w ++ [']'] ++ rest = '[' :: (w ++ ']' :: rest) := by simp
          rw [htext, valueFrom]
          have hdepth : ¬ levels + 1 + 1 ≤ 1 := by omega
          refine (if_neg hdepth).trans ?_
          exact congrArg (Read.andThen · _) hloop
      | @object ms w h =>
          obtain ⟨levels, rfl, hwithin⟩ := Value.within_object.1 hwithin
          simp only [List.length_append, List.length_cons, List.length_nil]
            at hfuel hinner
          have hloop := (members_isLoop (levels + 1)).loop_complete h
            (by omega : 3 * w.length + 3 ≤ fuel)
            (fun m hm w' hle hm' fuel' hfuel' =>
              hm'.complete (fun w'' hle' => hinner m.2 w'' (by omega))
                (hwithin m hm) hfuel') rest
          have htext : '{' :: w ++ ['}'] ++ rest = '{' :: (w ++ '}' :: rest) := by simp
          rw [htext, valueFrom]
          have hdepth : ¬ levels + 1 + 1 ≤ 1 := by omega
          refine (if_neg hdepth).trans ?_
          exact congrArg (Read.andThen · _) hloop

theorem atEnd_eq_ok_iff : atEnd rest = .ok () ↔ Space rest := by
  constructor
  · intro h
    obtain ⟨s, hs, hrest⟩ := exists_space rest
    rw [atEnd] at h
    split at h
    · rename_i hskip
      rw [hrest, hskip, List.append_nil]
      exact hs
    · cases h
  · intro h
    have hskip : skipSpace rest = [] := by
      simpa [skipSpace] using skipSpace_append h []
    rw [atEnd, hskip]

/-- What is behind the value is only space. -/
theorem PaddedText.readFrom (h : PaddedText v cs) (hwithin : v.Within levels)
    (hfuel : 3 * cs.length < fuel) :
    ∃ rest, Space rest ∧ valueFrom fuel (levels + 1) cs = .ok (v, rest) := by
  cases h with
  | @padded _ s w s' hs hv hs' =>
      obtain ⟨fuel, rfl⟩ : ∃ k, fuel = k + 1 := ⟨fuel - 1, by omega⟩
      obtain ⟨c, cs, hcs, hblank, -⟩ := hv.head
      have hskip : skipSpace (s ++ w ++ s') = w ++ s' := by
        rw [List.append_assoc, skipSpace_append hs, hcs, List.cons_append,
          skipSpace_cons (mt isBlank_of_isSpace hblank)]
      have hstops : Stops s' := by simpa using Stops.nil.space_append hs'
      simp only [List.length_append] at hfuel
      refine ⟨s', hs', ?_⟩
      rw [← valueFrom_skipSpace, hskip]
      exact hv.readFrom levels _ s' hwithin (by omega) hstops

/-- A text is read as a value and nothing else exactly when the value is written
so and its lists and objects do not nest too deep. -/
theorem value_document_iff :
    (∃ rest, value cs = .ok (v, rest) ∧ atEnd rest = .ok ()) ↔
      PaddedText v cs ∧ v.Within (depthLimit - 1) := by
  constructor
  · rintro ⟨rest, hvalue, hend⟩
    obtain ⟨w, rfl, hw⟩ := valueFrom_sound _ _ _ _ _ hvalue
    exact hw [] rest Space.nil (atEnd_eq_ok_iff.1 hend)
  · rintro ⟨htext, hwithin⟩
    obtain ⟨rest, hrest, hvalue⟩ :=
      htext.readFrom hwithin (by omega : 3 * cs.length < 3 * cs.length + 3)
    exact ⟨rest, hvalue, atEnd_eq_ok_iff.2 hrest⟩

/-- A text has at most one value. -/
theorem PaddedText.unique {v' : Value} (h : PaddedText v cs) (h' : PaddedText v' cs) :
    v = v' := by
  obtain ⟨levels, hlevels⟩ := v.exists_within
  obtain ⟨levels', hlevels'⟩ := v'.exists_within
  have hfuel : 3 * cs.length < 3 * cs.length + 1 := Nat.lt_succ_self _
  obtain ⟨_, -, hread⟩ :=
    h.readFrom (hlevels.mono (Nat.le_max_left levels levels')) hfuel
  obtain ⟨_, -, hread'⟩ :=
    h'.readFrom (hlevels'.mono (Nat.le_max_right levels levels')) hfuel
  rw [hread] at hread'
  exact (Prod.mk.inj (Except.ok.inj hread')).1

end Lintmark.Json
