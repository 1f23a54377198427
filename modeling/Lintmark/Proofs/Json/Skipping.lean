/-
Skipping values.  A value that is not kept needs the form of one only: its numbers
may have any size, the halves of surrogate pairs in its strings need not match, and
its lists and objects may nest to any depth.  Every text of that form is skipped
wherever it stands, and the texts of values are among them.
-/
import Lintmark.Proofs.Json.Values

namespace Lintmark.Json

variable {α β : Type} {c close : Char} {cs ds w rest : List Char} {minus : Bool} {fuel n : Nat}
  {v : Value}

/-- How a character or half of a surrogate pair is written. -/
inductive SpellingForm : List Char → Prop where
  | plain {c : Char} (h : isPlain c) : SpellingForm [c]
  | letter {c : Char} (h : c ∈ ['"', '\\', '/', 'b', 'f', 'n', 'r', 't']) :
      SpellingForm ['\\', c]
  | number {v : Nat} {ds : List Char} (h : HexFour v ds) : SpellingForm ('\\' :: 'u' :: ds)

inductive StringForm : List Char → Prop where
  | quoted {ws : List (List Char)} (h : ∀ w ∈ ws, SpellingForm w) :
      StringForm ('"' :: ws.flatten ++ ['"'])

mutual

inductive ValueForm : List Char → Prop where
  | null : ValueForm ['n', 'u', 'l', 'l']
  | true : ValueForm ['t', 'r', 'u', 'e']
  | false : ValueForm ['f', 'a', 'l', 's', 'e']
  | number {w : List Char} (h : Numeral w) : ValueForm w
  | string {w : List Char} (h : StringForm w) : ValueForm w
  | array {vs : List (List Char)} {w : List Char} (h : Separated PaddedForm vs w) :
      ValueForm ('[' :: w ++ [']'])
  | object {ms : List (List Char × List Char)} {w : List Char}
      (h : Separated MemberForm ms w) : ValueForm ('{' :: w ++ ['}'])

inductive PaddedForm : List Char → List Char → Prop where
  | padded {s w s' : List Char} (hs : Space s) (hw : ValueForm w) (hs' : Space s') :
      PaddedForm w (s ++ w ++ s')

/-- The texts of a name and a value, joined to a member of an object. -/
inductive MemberForm : List Char × List Char → List Char → Prop where
  | named {k v s s' w : List Char} (hs : Space s) (hk : StringForm k) (hs' : Space s')
      (hv : PaddedForm v w) : MemberForm (k, v) (s ++ k ++ s' ++ ':' :: w)

end

theorem isSome_escapeLetter? (h : c ∈ ['"', '\\', '/', 'b', 'f', 'n', 'r', 't']) :
    (escapeLetter? c).isSome := by
  simp only [List.mem_cons, List.not_mem_nil, or_false] at h
  rcases h with rfl | rfl | rfl | rfl | rfl | rfl | rfl | rfl <;> rfl

/-- One spelled character is skipped in one step. -/
theorem skipStringFrom_spelling (h : SpellingForm w) (fuel : Nat) (rest : List Char) :
    skipStringFrom (fuel + 1) (w ++ rest) = skipStringFrom fuel rest := by
  cases h with
  | @plain c h =>
      simp only [isPlain, Bool.and_eq_true, decide_eq_true_eq, bne_iff_ne] at h
      have hcontrol : ¬ c < ' ' := Char.not_lt.mpr h.1.1
      simp [skipStringFrom, h.1.2, h.2, hcontrol]
  | @letter c h =>
      have hletter : c ≠ 'u' := by
        rintro rfl
        exact absurd h (by decide)
      have hskip : skipEscape (c :: rest) = .ok ((), rest) := by
        rw [skipEscape.eq_3 _ _ hletter, if_pos (isSome_escapeLetter? h)]
      simp only [List.cons_append, List.nil_append, skipStringFrom, hskip, Read.andThen_ok]
  | @number v ds h =>
      have hread : hexEscape (ds ++ rest) = .ok (v, rest) :=
        hexEscape_eq_ok_iff.mpr ⟨ds, h, rfl⟩
      simp only [List.cons_append, skipStringFrom, skipEscape, hread, Read.andThen_ok]

theorem skipStringFrom_spellings {ws : List (List Char)} (h : ∀ w ∈ ws, SpellingForm w)
    (hfuel : ws.flatten.length < fuel) (rest : List Char) :
    skipStringFrom fuel (ws.flatten ++ '"' :: rest) = .ok ((), rest) := by
  induction ws generalizing fuel with
  | nil =>
      obtain ⟨fuel, rfl⟩ : ∃ k, fuel = k + 1 := ⟨fuel - 1, by omega⟩
      rfl
  | cons w ws ih =>
      obtain ⟨hw, hws⟩ := List.forall_mem_cons.mp h
      have hpos : 0 < w.length := by cases hw <;> exact Nat.succ_pos _
      rw [List.flatten_cons, List.length_append] at hfuel
      obtain ⟨fuel, rfl⟩ : ∃ k, fuel = k + 1 := ⟨fuel - 1, by omega⟩
      rw [List.flatten_cons, List.append_assoc, skipStringFrom_spelling hw]
      exact ih hws (by omega)

theorem StringForm.skip (h : StringForm w) (rest : List Char) :
    ∃ cs, w ++ rest = '"' :: cs ∧ skipString cs = .ok ((), rest) := by
  obtain ⟨hws⟩ := h
  rename_i ws
  refine ⟨ws.flatten ++ '"' :: rest, by simp, ?_⟩
  rw [skipString]
  apply skipStringFrom_spellings hws
  rw [List.length_append]
  omega

theorem Spelling.form (h : Spelling c w) :
    ∃ ws, (∀ w' ∈ ws, SpellingForm w') ∧ w = List.flatten ws := by
  have hone (h : SpellingForm w) : ∃ ws, (∀ w' ∈ ws, SpellingForm w') ∧ w = List.flatten ws :=
    ⟨[w], by simpa using h, by simp⟩
  cases h with
  | plain hspace hquote hbackslash =>
      apply hone
      apply SpellingForm.plain
      simp [isPlain, hspace, hquote, hbackslash]
  | number h => exact hone (.number h)
  | @surrogates _ _ _ ds ds' _ _ h h' _ =>
      -- Each of the two surrogates is skipped by itself.
      refine ⟨['\\' :: 'u' :: ds, '\\' :: 'u' :: ds'], ?_, by simp⟩
      intro w hw
      rcases List.mem_cons.mp hw with rfl | hw
      · exact .number h
      · rw [List.mem_singleton.mp hw]
        exact .number h'
  | _ => exact hone (.letter (by decide))

theorem Spelled.form (h : Spelled cs w) :
    ∃ ws, (∀ w' ∈ ws, SpellingForm w') ∧ w = List.flatten ws := by
  induction h with
  | nil => exact ⟨[], by simp, rfl⟩
  | cons h _ ih =>
      obtain ⟨ws, hws, rfl⟩ := h.form
      obtain ⟨ws', hws', rfl⟩ := ih
      refine ⟨ws ++ ws', ?_, by rw [List.flatten_append]⟩
      intro w hw
      rcases List.mem_append.mp hw with hw | hw
      · exact hws w hw
      · exact hws' w hw

theorem StringText.form {t : String} (h : StringText t w) : StringForm w := by
  obtain ⟨hbody⟩ := h
  obtain ⟨ws, hws, rfl⟩ := hbody.form
  exact .quoted hws

/-- The reader takes a whole string or fails on it. -/
theorem StringForm.string_eq_ok_iff {t : String} {rest' : List Char} (h : StringForm w)
    (hcs : w ++ rest = '"' :: cs) :
    string cs = .ok (t, rest') ↔ StringText t w ∧ rest' = rest := by
  constructor
  · intro hstring
    obtain ⟨w', hw', hcs'⟩ := Json.string_eq_ok_iff.mp hstring
    -- What is read can be skipped, so both texts end at one place.
    obtain ⟨body, hbody, hskip⟩ := h.skip rest
    obtain ⟨body', hbody', hskip'⟩ := hw'.form.skip rest'
    have heq : body = body' :=
      (List.cons.inj (hbody.symm.trans (hcs.trans (hcs'.trans hbody')))).2
    rw [heq, hskip'] at hskip
    have hrest : rest' = rest := (Prod.mk.inj (Except.ok.inj hskip)).2
    rw [hrest, ← hcs] at hcs'
    rw [List.append_cancel_right hcs']
    exact ⟨hw', hrest⟩
  · rintro ⟨htext, rfl⟩
    exact Json.string_eq_ok_iff.mpr ⟨w, htext, hcs.symm⟩

theorem skipExponent_append {sign ds : List Char} (hsign : sign = [] ∨ sign = ['+'] ∨ sign = ['-'])
    (hds : Digits ds) (hrest : Stops rest) :
    skipExponent (sign ++ ds ++ rest) = .ok ((), rest) := by
  have hspan := spanDigits_append hds.2 hrest.notDigit
  obtain ⟨d, ds, rfl⟩ := List.exists_cons_of_ne_nil hds.1
  rcases hsign with rfl | rfl | rfl
  · have hplus := hds.ne_cons (c := '+') (by decide) rest
    have hminus := hds.ne_cons (c := '-') (by decide) rest
    rw [List.nil_append, skipExponent.eq_3 _ hplus hminus, hspan]
  · change skipExponent ('+' :: (d :: ds ++ rest)) = _
    rw [skipExponent, hspan]
  · change skipExponent ('-' :: (d :: ds ++ rest)) = _
    rw [skipExponent, hspan]

theorem Exponent.skip (h : Exponent w) (hrest : Stops rest) :
    skipScientific (w ++ rest) = .ok ((), rest) := by
  cases h with
  | none =>
      rw [List.nil_append, skipScientific.eq_3 _ (hrest.ne_cons (by simp))
        (hrest.ne_cons (by simp))]
  | @mark e sign ds he hsign hds =>
      rcases he with rfl | rfl
      · exact skipExponent_append hsign hds hrest
      · exact skipExponent_append hsign hds hrest

theorem Fraction.skip {f e : List Char} (hf : Fraction f) (he : Exponent e) (hrest : Stops rest) :
    skipNumberFrom (Nat.toDigits 10 n ++ (f ++ (e ++ rest))) = .ok ((), rest) := by
  have hspan := spanDigits_append (digits_toDigits n).2 (hf.notDigit he hrest)
  have hnil := (digits_toDigits n).1
  have hzero := toDigits_ne_zero_cons n
  generalize Nat.toDigits 10 n = ds at hspan hnil hzero ⊢
  rw [skipNumberFrom, hspan]
  split
  · rename_i heq
    exact absurd (Prod.mk.inj heq).1 hnil
  · rename_i heq
    exact absurd (Prod.mk.inj heq).1 (hzero _ _)
  · rename_i heq
    obtain ⟨-, hpoint⟩ := Prod.mk.inj heq
    cases hf with
    | none =>
        cases he with
        | none => exact absurd hpoint (hrest.ne_cons (by simp) _)
        | mark he hsign hds =>
            obtain ⟨rfl, -⟩ := List.cons.inj hpoint
            rcases he with he | he <;> cases he
    | @point ds' hds' =>
        rw [List.cons_append] at hpoint
        obtain ⟨-, rfl⟩ := List.cons.inj hpoint
        obtain ⟨d, ds', rfl⟩ := List.exists_cons_of_ne_nil hds'.1
        rw [spanDigits_append hds'.2 (he.notDigit hrest)]
        exact he.skip hrest
  · rename_i hpoint heq
    obtain ⟨rfl, rfl⟩ := Prod.mk.inj heq
    cases hf with
    | none => exact he.skip hrest
    | point hds' => exact absurd rfl (hpoint _)

theorem Numeral.skip (h : Numeral w) (hrest : Stops rest) :
    skipNumber (w ++ rest) = .ok ((), rest) := by
  obtain ⟨n, hsign, hf, he⟩ := h
  rename_i sign f e
  have hskip := hf.skip (n := n) he hrest
  rcases hsign with rfl | rfl
  · have hminus := (digits_toDigits n).ne_cons (c := '-') (by decide) (f ++ (e ++ rest))
    simpa [skipNumber.eq_2 _ hminus] using hskip
  · simpa [skipNumber] using hskip

theorem whole_true_ne_natural (m : Nat) : whole true m ≠ .natural n := by
  intro h
  simp only [whole, Bool.not_true, Bool.false_eq_true, if_false] at h
  split at h <;> cases h

/-- A whole number is read where neither fraction nor exponent stands. -/
theorem eq_nil_of_afterDigits_natural {f e rest' : List Char} (hf : Fraction f) (he : Exponent e)
    (h : afterDigits minus ds (f ++ (e ++ rest)) = .ok (.natural n, rest')) : f = [] ∧ e = [] := by
  cases hf with
  | point hds =>
      obtain ⟨_, _, -, -, hv, -⟩ := fractionPart_takes _ _ _ _ _ _ h
      cases hv
  | none =>
      cases he with
      | none => exact ⟨rfl, rfl⟩
      | mark he hsign hds =>
          have hexponent : ∃ digits start cs,
              exponentPart minus digits start cs = .ok (.natural n, rest') := by
            rcases he with rfl | rfl
            · exact ⟨_, _, _, h⟩
            · exact ⟨_, _, _, h⟩
          obtain ⟨_, _, _, hread⟩ := hexponent
          obtain ⟨_, _, -, -, hv, -⟩ := exponentPart_takes _ _ _ _ _ _ hread
          cases hv

/-- The reader takes a whole number from zero on as a whole or fails on it. -/
theorem Numeral.number_eq_natural_iff {rest' : List Char} (h : Numeral w) (hrest : Stops rest) :
    number (w ++ rest) = .ok (.natural n, rest') ↔
      NumberText (.natural n) w ∧ rest' = rest := by
  constructor
  · intro hread
    obtain ⟨m, hsign, hf, he⟩ := h
    rcases hsign with rfl | rfl
    · rw [List.nil_append, List.append_assoc, List.append_assoc, number_unsigned_toDigits,
        numberFrom_append m (hf.notDigit he hrest)] at hread
      obtain ⟨rfl, rfl⟩ := eq_nil_of_afterDigits_natural hf he hread
      obtain ⟨f, e, -, -, hcs, -, ⟨rfl, rfl, hlt, hv⟩ | ⟨a, hv⟩⟩ := afterDigits_takes hread
      · cases hv
        rw [List.append_nil, List.append_nil]
        exact ⟨.natural hlt, hcs.symm⟩
      · cases hv
    · change numberFrom true _ = _ at hread
      obtain ⟨m, _, _, -, -, -, -, ⟨-, -, -, hv⟩ | ⟨a, hv⟩⟩ := numberFrom_takes hread
      · exact absurd hv.symm (whole_true_ne_natural m)
      · cases hv
  · rintro ⟨htext, rfl⟩
    exact htext.takes rest' hrest

/-- A loop that skips things with commas between them up to the closing bracket. -/
structure SkipLoop (close : Char) (one : Nat → List Char → Read Unit)
    (loop : Nat → Bool → List Char → Read Unit) : Prop where
  closed : ∀ {s : List Char} (fuel : Nat) (first : Bool) (rest : List Char), Space s →
    loop (fuel + 1) first (s ++ close :: rest) = .ok ((), rest)
  opened : ∀ {cs cs' : List Char} {c : Char} (fuel : Nat), skipSpace cs = c :: cs' → c ≠ close →
    loop (fuel + 2) true cs = (one fuel (c :: cs')).andThen fun _ rest => loop fuel false rest
  comma : ∀ {s cs cs' : List Char} {c : Char} (fuel : Nat), Space s → skipSpace cs = c :: cs' →
    loop (fuel + 3) false (s ++ ',' :: cs) =
      (one (fuel + 1) (c :: cs')).andThen fun _ rest => loop (fuel + 1) false rest

section SkipLoop

variable {one : Nat → List Char → Read Unit} {loop : Nat → Bool → List Char → Read Unit}
  {Written : α → List Char → Prop} {a : α} {as : List α}

theorem SkipLoop.more (h : SkipLoop close one loop) (hw : Separated Written (a :: as) w)
    (hfuel : 3 * w.length + 1 ≤ fuel)
    (hone : ∀ b ∈ a :: as, ∀ w', w'.length ≤ w.length → Written b w' →
      ∀ fuel, 3 * w'.length ≤ fuel → Complete (one fuel) close () w')
    (rest : List Char) :
    ∃ c cs, skipSpace (w ++ close :: rest) = c :: cs ∧ c ≠ close ∧
      ((one fuel (c :: cs)).andThen fun _ rest => loop fuel false rest) = .ok ((), rest) := by
  induction as generalizing a w fuel with
  | nil =>
      cases hw with
      | one hw =>
          obtain ⟨c, cs, s, hskip, hc, hs, hread⟩ :=
            hone a List.mem_cons_self w (Nat.le_refl _) hw fuel (by omega) close rest (Or.inr rfl)
          obtain ⟨fuel, rfl⟩ : ∃ k, fuel = k + 1 := ⟨fuel - 1, by omega⟩
          refine ⟨c, cs, hskip, hc, ?_⟩
          rw [hread, Read.andThen_ok, h.closed fuel false rest hs]
  | cons b as ih =>
      cases hw with
      | @more _ _ _ w ws hw hws =>
          simp only [List.length_append, List.length_cons] at hfuel hone
          obtain ⟨c, cs, s, hskip, hc, hs, hread⟩ :=
            hone a List.mem_cons_self w (by omega) hw fuel (by omega) ','
              (ws ++ close :: rest) (Or.inl rfl)
          obtain ⟨fuel, rfl⟩ : ∃ k, fuel = k + 3 := ⟨fuel - 3, by omega⟩
          have henough : 3 * ws.length + 1 ≤ fuel + 1 := by omega
          obtain ⟨d, ds, hskip', hd, hmore⟩ :=
            ih hws henough fun b' hb' w' hle =>
              hone b' (List.mem_cons_of_mem a hb') w' (by omega)
          refine ⟨c, cs, by simpa using hskip, hc, ?_⟩
          rw [hread, Read.andThen_ok, h.comma fuel hs hskip', hmore]

theorem SkipLoop.complete (h : SkipLoop close one loop) (hw : Separated Written as w)
    (hfuel : 3 * w.length + 3 ≤ fuel)
    (hone : ∀ a ∈ as, ∀ w', w'.length ≤ w.length → Written a w' →
      ∀ fuel, 3 * w'.length ≤ fuel → Complete (one fuel) close () w')
    (rest : List Char) :
    loop fuel true (w ++ close :: rest) = .ok ((), rest) := by
  obtain ⟨fuel, rfl⟩ : ∃ k, fuel = k + 2 := ⟨fuel - 2, by omega⟩
  cases as with
  | nil =>
      cases hw with
      | none hs => exact h.closed (fuel + 1) true rest hs
  | cons a as =>
      have henough : 3 * w.length + 1 ≤ fuel := by omega
      obtain ⟨c, cs, hskip, hc, hmore⟩ := h.more hw henough hone rest
      rw [h.opened fuel hskip hc, hmore]

end SkipLoop

theorem skipValueFrom_skipSpace (fuel : Nat) (cs : List Char) :
    skipValueFrom (fuel + 1) (skipSpace cs) = skipValueFrom (fuel + 1) cs := by
  rw [skipValueFrom, skipValueFrom, skipSpace_skipSpace]

theorem items_skipLoop : SkipLoop ']' skipValueFrom skipItemsFrom where
  closed := by
    intro s fuel first rest hs
    have hclose : ¬ isSpace ']' := by decide
    simp [skipItemsFrom, skipSpace_append hs, skipSpace_cons hclose]
  opened := by
    intro cs cs' c fuel hskip hc
    simp [skipItemsFrom, hskip, skipItemFrom]
  comma := by
    intro s cs cs' c fuel hs hskip
    have hcomma : ¬ isSpace ',' := by decide
    rw [← hskip, skipValueFrom_skipSpace, ← skipItemFrom]
    simp [skipItemsFrom.eq_2, skipSpace_append hs, skipSpace_cons hcomma]

/-- Skip one member, the space in front of its name already skipped. -/
def skipMemberAt (fuel : Nat) : List Char → Read Unit
  | [] => failOn .eofInObject []
  | '"' :: rest =>
    (skipString rest).andThen fun _ rest =>
      match skipSpace rest with
      | [] => failOn .eofInObject []
      | ':' :: rest => skipValueFrom fuel rest
      | rest => failOn .colonExpected rest
  | cs => failOn .keyNotString cs

theorem skipMemberFrom_succ (fuel : Nat) (cs : List Char) :
    skipMemberFrom (fuel + 1) cs =
      (skipMemberAt fuel cs).andThen fun _ rest => skipMembersFrom fuel false rest := by
  rw [skipMemberFrom.eq_def]
  dsimp only
  split
  · rfl
  · rw [skipMemberAt, Read.andThen_assoc]
    congr 1
    funext _ rest
    -- Both sides look at the character behind the name.
    cases hskip : skipSpace rest with
    | nil => rfl
    | cons c rest' =>
        by_cases hcolon : c = ':'
        · simp only [hcolon]
        · simp [hcolon]
          rfl
  · rename_i hnil hquote
    rw [skipMemberAt.eq_3 _ _ hnil hquote]
    rfl

theorem members_skipLoop : SkipLoop '}' skipMemberAt skipMembersFrom where
  closed := by
    intro s fuel first rest hs
    have hclose : ¬ isSpace '}' := by decide
    simp [skipMembersFrom, skipSpace_append hs, skipSpace_cons hclose]
  opened := by
    intro cs cs' c fuel hskip hc
    simp [skipMembersFrom, hskip, skipMemberFrom_succ]
  comma := by
    intro s cs cs' c fuel hs hskip
    have hcomma : ¬ isSpace ',' := by decide
    simp [skipMembersFrom, skipSpace_append hs, skipSpace_cons hcomma, hskip, skipMemberFrom_succ]

/-- The text is skipped wherever it stands, with enough fuel. -/
def SkippedFrom (w : List Char) : Prop :=
  ∀ fuel rest, 3 * w.length ≤ fuel → Stops rest → skipValueFrom fuel (w ++ rest) = .ok ((), rest)

/-- The form of a value starts with what is neither space nor a closing bracket. -/
theorem ValueForm.head (h : ValueForm w) :
    ∃ c cs, w = c :: cs ∧ ¬ isSpace c ∧ c ≠ ']' ∧ c ≠ '}' := by
  cases h with
  | number h =>
      obtain ⟨c, cs, rfl, hc⟩ := h.head
      have hspace : ¬ isSpace c := not_isSpace_of_number hc
      refine ⟨c, cs, rfl, hspace, ?_, ?_⟩
      · rintro rfl
        exact absurd hc (by decide)
      · rintro rfl
        exact absurd hc (by decide)
  | string h =>
      obtain ⟨h⟩ := h
      exact ⟨'"', _, rfl, by decide⟩
  | null => exact ⟨'n', _, rfl, by decide⟩
  | true => exact ⟨'t', _, rfl, by decide⟩
  | false => exact ⟨'f', _, rfl, by decide⟩
  | array h => exact ⟨'[', _, rfl, by decide⟩
  | object h => exact ⟨'{', _, rfl, by decide⟩

theorem ValueForm.skipSpace_append {t : List Char} (ht : Space t) (h : ValueForm w)
    (rest : List Char) :
    skipSpace (t ++ w ++ rest) = w ++ rest := by
  obtain ⟨c, cs, rfl, hspace, -⟩ := h.head
  rw [List.append_assoc, Json.skipSpace_append ht, List.cons_append, skipSpace_cons hspace]

theorem skipValueFrom_number (hc : c = '-' ∨ c.isDigit) :
    skipValueFrom (fuel + 1) (c :: cs) = skipNumber (c :: cs) := by
  have hdigit : (c = '-' || isDigit c) = true := by
    rw [Bool.or_eq_true, decide_eq_true_eq]
    exact hc
  rw [skipValueFrom, skipSpace_cons (not_isSpace_of_number hc)]
  split
  · rename_i heq
    cases heq
  all_goals rename_i heq; obtain ⟨rfl, rfl⟩ := List.cons.inj heq
  · simp at hc
  · simp at hc
  · simp at hc
  · simp at hc
  · simp at hc
  · simp at hc
  · exact if_pos hdigit

theorem PaddedForm.skip {p : List Char} (hclose : close = ']' ∨ close = '}')
    (h : PaddedForm w p) (hskip : SkippedFrom w) (hfuel : 3 * p.length ≤ fuel) :
    Complete (skipValueFrom fuel) close () p := by
  cases h with
  | @padded s w s' hs hw hs' =>
      simp only [List.length_append] at hfuel
      apply Complete.padded hclose hs hs' hw.head
      intro rest hstops
      exact hskip fuel rest (by omega) hstops

theorem MemberForm.skip {m : List Char × List Char} {p : List Char} (h : MemberForm m p)
    (hskip : SkippedFrom m.2) (hfuel : 3 * p.length ≤ fuel) :
    Complete (skipMemberAt fuel) '}' () p := by
  intro stop rest hstop
  cases h with
  | @named k v s s' w hs hk hs' hv =>
      simp only [List.length_append, List.length_cons] at hfuel
      obtain ⟨fuel, rfl⟩ : ∃ n, fuel = n + 1 := ⟨fuel - 1, by omega⟩
      have henough : 3 * w.length ≤ fuel + 1 := by omega
      obtain ⟨d, ds, s'', hspace, -, hs'', hvalue⟩ :=
        hv.skip (Or.inr rfl) hskip henough stop rest hstop
      obtain ⟨cs, hcs, hname⟩ := hk.skip (s' ++ ':' :: (w ++ stop :: rest))
      have hcolon : ¬ isSpace ':' := by decide
      refine ⟨'"', cs, s'', skipSpace_named hs hcs, by decide, hs'', ?_⟩
      rw [← hspace, skipValueFrom_skipSpace] at hvalue
      rw [skipMemberAt, hname, Read.andThen_ok, skipSpace_append hs', skipSpace_cons hcolon]
      exact hvalue

theorem PaddedForm.length_le {p : List Char} (h : PaddedForm w p) : w.length ≤ p.length := by
  cases h with
  | padded hs hw hs' =>
      simp only [List.length_append]
      omega

theorem PaddedForm.valueForm {p : List Char} (h : PaddedForm w p) : ValueForm w := by
  cases h with
  | padded hs hw hs' => exact hw

theorem MemberForm.valueForm {m : List Char × List Char} {p : List Char} (h : MemberForm m p) :
    ValueForm m.2 ∧ m.2.length ≤ p.length := by
  cases h with
  | @named k v s s' w hs hk hs' hv =>
      have hle := hv.length_le
      simp only [List.length_append, List.length_cons]
      exact ⟨hv.valueForm, by omega⟩

/-- A text of the form of a value is skipped wherever it stands. -/
theorem ValueForm.skippedFrom (h : ValueForm w) : SkippedFrom w := by
  -- The texts inside are shorter.
  induction hlength : w.length using Nat.strongRecOn generalizing w with
  | ind n ih =>
      intro fuel rest hfuel hstops
      have hpos : 0 < w.length := by
        obtain ⟨c, cs, rfl, -⟩ := h.head
        exact Nat.succ_pos _
      obtain ⟨fuel, rfl⟩ : ∃ k, fuel = k + 1 := ⟨fuel - 1, by omega⟩
      have hinner (w' : List Char) (hle : w'.length < w.length) (h' : ValueForm w') :
          SkippedFrom w' :=
        ih w'.length (by omega) h' rfl
      cases h with
      | null =>
          rw [skipValueFrom]
          rfl
      | true =>
          rw [skipValueFrom]
          rfl
      | false =>
          rw [skipValueFrom]
          rfl
      | number h =>
          obtain ⟨c, cs, rfl, hc⟩ := h.head
          rw [List.cons_append, skipValueFrom_number hc, ← List.cons_append, h.skip hstops]
      | string h =>
          obtain ⟨cs, hcs, hskip⟩ := h.skip rest
          rw [hcs, skipValueFrom]
          exact hskip
      | @array vs w h =>
          simp only [List.length_append, List.length_cons, List.length_nil] at hfuel hinner
          have henough : 3 * w.length + 3 ≤ fuel := by omega
          have hloop := items_skipLoop.complete h henough
            (fun v _ w' hle hv fuel' hfuel' => by
              have hshorter := hv.length_le
              exact hv.skip (Or.inl rfl) (hinner v (by omega) hv.valueForm) hfuel') rest
          have htext : '[' :: w ++ [']'] ++ rest = '[' :: (w ++ ']' :: rest) := by simp
          rw [htext, skipValueFrom]
          exact hloop
      | @object ms w h =>
          simp only [List.length_append, List.length_cons, List.length_nil] at hfuel hinner
          have henough : 3 * w.length + 3 ≤ fuel := by omega
          have hloop := members_skipLoop.complete h henough
            (fun m _ w' hle hm fuel' hfuel' => by
              obtain ⟨hvalue, hshorter⟩ := hm.valueForm
              exact hm.skip (hinner m.2 (by omega) hvalue) hfuel') rest
          have htext : '{' :: w ++ ['}'] ++ rest = '{' :: (w ++ '}' :: rest) := by simp
          rw [htext, skipValueFrom]
          exact hloop

theorem ValueForm.skipValue {s : List Char} (hs : Space s) (h : ValueForm w) (hrest : Stops rest) :
    skipValue (s ++ w ++ rest) = .ok ((), rest) := by
  rw [Json.skipValue, ← skipValueFrom_skipSpace, h.skipSpace_append hs]
  refine h.skippedFrom _ rest ?_ hrest
  simp only [List.length_append]
  omega

/-- Things that are written one way and another way, both with the same text. -/
theorem Separated.exists_forall₂ {P : α → List Char → Prop} {Q : β → List Char → Prop}
    {R : α → β → Prop} {as : List α} (h : Separated P as w)
    (hone : ∀ a ∈ as, ∀ w', w'.length ≤ w.length → P a w' → ∃ b, Q b w' ∧ R a b) :
    ∃ bs, Separated Q bs w ∧ List.Forall₂ R as bs := by
  induction h with
  | none hs => exact ⟨[], .none hs, .nil⟩
  | @one a w h =>
      obtain ⟨b, hb, hab⟩ := hone a List.mem_cons_self w (Nat.le_refl _) h
      exact ⟨[b], .one hb, .cons hab .nil⟩
  | @more a a' as w ws h _ ih =>
      simp only [List.length_append, List.length_cons] at hone
      obtain ⟨b, hb, hab⟩ := hone a List.mem_cons_self w (by omega) h
      obtain ⟨bs, hbs, hall⟩ := ih fun a' ha' w' hle =>
        hone a' (List.mem_cons_of_mem a ha') w' (by omega)
      cases hall with
      | @cons _ b' _ bs hb' hall =>
          exact ⟨b :: b' :: bs, .more hb hbs, .cons hab (.cons hb' hall)⟩

theorem PaddedText.form {p : List Char} (h : PaddedText v p)
    (hvalue : ∀ w, w.length ≤ p.length → ValueText v w → ValueForm w) :
    ∃ w, PaddedForm w p ∧ ValueText v w := by
  cases h with
  | @padded _ s w s' hs hv hs' =>
      have hle : w.length ≤ (s ++ w ++ s').length := by
        simp only [List.length_append]
        omega
      exact ⟨w, .padded hs (hvalue w hle hv) hs', hv⟩

/-- The text of a value has the form of one. -/
theorem ValueText.form (h : ValueText v w) : ValueForm w := by
  induction hlength : w.length using Nat.strongRecOn generalizing v w with
  | ind n ih =>
      have hinner (v' : Value) (w' : List Char) (hle : w'.length < w.length)
          (h' : ValueText v' w') : ValueForm w' :=
        ih w'.length (by omega) h' rfl
      cases h with
      | null => exact .null
      | true => exact .true
      | false => exact .false
      | number h => exact .number h.numeral
      | string h => exact .string h.form
      | @array vs w h =>
          simp only [List.length_append, List.length_cons, List.length_nil] at hinner
          obtain ⟨ws, hws, -⟩ := h.exists_forall₂ (R := fun _ _ => True) (Q := PaddedForm)
            fun v _ p hle hp => by
              obtain ⟨w', hw', -⟩ := hp.form fun w'' hle' hw'' => hinner v w'' (by omega) hw''
              exact ⟨w', hw', trivial⟩
          exact .array hws
      | @object ms w h =>
          simp only [List.length_append, List.length_cons, List.length_nil] at hinner
          obtain ⟨ws, hws, -⟩ := h.exists_forall₂ (R := fun _ _ => True) (Q := MemberForm)
            fun m _ p hle hp => by
              cases hp with
              | @named name v s k s' p hs hk hs' hv =>
                  simp only [List.length_append, List.length_cons] at hle
                  obtain ⟨w', hw', -⟩ := hv.form fun w'' hle' hw'' => hinner v w'' (by omega) hw''
                  exact ⟨(k, w'), .named hs hk.form hs' hw', trivial⟩
          exact .object hws

/-- A member whose name is read and whose value has the form of one. -/
inductive NamedForm : String × List Char → List Char → Prop where
  | named {name : String} {v s k s' w : List Char} (hs : Space s) (hk : StringText name k)
      (hs' : Space s') (hv : PaddedForm v w) : NamedForm (name, v) (s ++ k ++ s' ++ ':' :: w)

theorem NamedForm.plain (name : String) (hname : name.toList.all isPlain) (hw : ValueForm w) :
    NamedForm (name, w) ('"' :: name.toList ++ '"' :: ':' :: w) := by
  have hpadded := PaddedForm.padded Space.nil hw Space.nil
  have hmember := NamedForm.named Space.nil (.quoted (.plain hname)) Space.nil hpadded
  simpa using hmember

/-- The text of an object: the names of its members and the texts of their values. -/
inductive ObjectForm (ms : List (String × List Char)) : List Char → Prop where
  | braces {s w s' : List Char} (hs : Space s) (h : Separated NamedForm ms w) (hs' : Space s') :
      ObjectForm ms (s ++ '{' :: w ++ '}' :: s')

/-- The member has this text as its value. -/
def SameMember (m : String × Value) (raw : String × List Char) : Prop :=
  m.1 = raw.1 ∧ ValueText m.2 raw.2

theorem MemberText.form {m : String × Value} {p : List Char} (h : MemberText m p) :
    ∃ raw, NamedForm raw p ∧ SameMember m raw := by
  cases h with
  | @named name v s k s' w hs hk hs' hv =>
      obtain ⟨w', hform, htext⟩ := hv.form fun _ _ h => h.form
      exact ⟨(name, w'), .named hs hk hs' hform, rfl, htext⟩

/-- An object has a text of members, each with the text of its value. -/
theorem PaddedText.objectForm {ms : List (String × Value)} (h : PaddedText (.object ms) cs) :
    ∃ raws, ObjectForm raws cs ∧ List.Forall₂ SameMember ms raws := by
  cases h with
  | padded hs hv hs' =>
      cases hv with
      | @object _ w h =>
          obtain ⟨raws, hraws, hall⟩ := h.exists_forall₂ fun _ _ _ _ hm => hm.form
          refine ⟨raws, ?_, hall⟩
          have hobject := ObjectForm.braces hs hraws hs'
          simpa using hobject

end Lintmark.Json
