/-
Reading strings.  The reader takes a string exactly when the text in front of it
is one, and gives back the characters that the text spells.
-/
import Mathlib.Tactic.IntervalCases
import Lintmark.Proofs.Json.Grammar

namespace Lintmark.Json

variable {c : Char} {cs ds rest : List Char} {v : Nat}

theorem HexDigit.lt (h : HexDigit v c) : v < 16 := by
  rcases h with h | h
  · exact (List.getElem?_eq_some_iff.1 h).1
  · exact (List.getElem?_eq_some_iff.1 h).1

theorem hexValue?_of_hexDigit (h : HexDigit v c) : hexValue? c = some v := by
  have hlt := h.lt
  rcases h with h | h
  · interval_cases v <;> cases h <;> rfl
  · interval_cases v <;> cases h <;> rfl

theorem hexDigit_of_hexValue? (h : hexValue? c = some v) : HexDigit v c := by
  have hchar : c = Char.ofNat c.toNat := (Char.ofNat_toNat c).symm
  simp only [hexValue?, Bool.and_eq_true, decide_eq_true_eq, Char.le_def,
    UInt32.le_iff_toNat_le] at h
  split at h
  · rename_i hrange
    have hlow : 48 ≤ c.toNat := hrange.1
    have hhigh : c.toNat ≤ 57 := hrange.2
    rw [← Option.some.inj h, hchar]
    generalize c.toNat = n at hlow hhigh
    interval_cases n <;> exact Or.inl rfl
  · split at h
    · rename_i hrange
      have hlow : 97 ≤ c.toNat := hrange.1
      have hhigh : c.toNat ≤ 102 := hrange.2
      rw [← Option.some.inj h, hchar]
      generalize c.toNat = n at hlow hhigh
      interval_cases n <;> exact Or.inl rfl
    · split at h
      · rename_i hrange
        have hlow : 65 ≤ c.toNat := hrange.1
        have hhigh : c.toNat ≤ 70 := hrange.2
        rw [← Option.some.inj h, hchar]
        generalize c.toNat = n at hlow hhigh
        interval_cases n <;> exact Or.inr rfl
      · cases h

theorem HexFour.lt (h : HexFour v ds) : v < 0x10000 := by
  cases h with
  | digits ha hb hc hd =>
      have hla := ha.lt
      have hlb := hb.lt
      have hlc := hc.lt
      have hld := hd.lt
      omega

theorem length_le_size (cs : List Char) : cs.length ≤ Text.Utf8.size cs := by
  induction cs with
  | nil => exact Nat.le_refl 0
  | cons c cs ih =>
      have hpos := c.utf8Size_pos
      simp only [Text.Utf8.size, List.length_cons, List.foldr_cons] at ih ⊢
      omega

theorem hexEscape_eq_ok_iff :
    hexEscape cs = .ok (v, rest) ↔ ∃ ds, HexFour v ds ∧ cs = ds ++ rest := by
  constructor
  · intro h
    simp only [hexEscape] at h
    split at h
    · cases h
    · split at h
      · split at h
        · rename_i ha hb hc hd
          obtain ⟨rfl, rfl⟩ := Prod.mk.inj (Except.ok.inj h)
          exact ⟨_, .digits (hexDigit_of_hexValue? ha) (hexDigit_of_hexValue? hb)
            (hexDigit_of_hexValue? hc) (hexDigit_of_hexValue? hd), rfl⟩
        · cases h
      · cases h
  · rintro ⟨ds, hds, rfl⟩
    cases hds with
    | @digits a b c d ca cb cc cd ha hb hc hd =>
        have hsize := length_le_size (ca :: cb :: cc :: cd :: rest)
        have henough : ¬ Text.Utf8.size (ca :: cb :: cc :: cd :: rest) < 4 := by
          simp only [List.length_cons] at hsize
          omega
        change hexEscape (ca :: cb :: cc :: cd :: rest) = _
        rw [hexEscape, if_neg henough]
        simp only [hexValue?_of_hexDigit ha, hexValue?_of_hexDigit hb,
          hexValue?_of_hexDigit hc, hexValue?_of_hexDigit hd]

theorem toNat_notSurrogate (c : Char) : ¬ (0xd800 ≤ c.toNat ∧ c.toNat ≤ 0xdfff) := by
  have hvalid : c.toNat < 0xd800 ∨ 0xdfff < c.toNat ∧ c.toNat < 0x110000 := c.valid
  omega

theorem toNat_ofNat_of_notSurrogate (h : v < 0x110000)
    (h' : ¬ (0xd800 ≤ v ∧ v ≤ 0xdfff)) : (Char.ofNat v).toNat = v := by
  have hvalid : v.isValidChar := by
    rw [Nat.isValidChar]
    omega
  rw [Char.ofNat, dif_pos hvalid]
  rfl

theorem spelling_of_escapeLetter? {l : Char} (h : escapeLetter? l = some c) :
    Spelling c ['\\', l] := by
  simp only [escapeLetter?] at h
  split at h
  case h_1 => cases h; exact .quote
  case h_2 => cases h; exact .backslash
  case h_3 => cases h; exact .slash
  case h_4 => cases h; exact .backspace
  case h_5 => cases h; exact .formFeed
  case h_6 => cases h; exact .lineFeed
  case h_7 => cases h; exact .carriageReturn
  case h_8 => cases h; exact .tab
  case h_9 => cases h

theorem lowSurrogate_eq_ok_iff {high : Nat} :
    lowSurrogate high cs = .ok (c, rest) ↔
      ∃ low ds, low < 0x400 ∧ HexFour (0xdc00 + low) ds ∧
        cs = '\\' :: 'u' :: ds ++ rest ∧
        c = Char.ofNat ((high - 0xd800) * 0x400 + low + 0x10000) := by
  constructor
  · intro h
    rw [lowSurrogate.eq_def] at h
    split at h
    · obtain ⟨low, rest', hlow, hjoin⟩ := Read.andThen_eq_ok.1 h
      obtain ⟨ds, hds, rfl⟩ := hexEscape_eq_ok_iff.1 hlow
      split at hjoin
      · rename_i hrange
        simp only [Bool.and_eq_true, decide_eq_true_eq] at hrange
        obtain ⟨rfl, rfl⟩ := Prod.mk.inj (Except.ok.inj hjoin)
        refine ⟨low - 0xdc00, ds, by omega, ?_, rfl, rfl⟩
        rwa [Nat.add_sub_cancel' hrange.1]
      · cases hjoin
    all_goals cases h
  · rintro ⟨low, ds, hlt, hds, rfl, hc⟩
    have hread : hexEscape (ds ++ rest) = .ok (0xdc00 + low, rest) :=
      hexEscape_eq_ok_iff.2 ⟨ds, hds, rfl⟩
    have hrange : (decide (0xdc00 ≤ 0xdc00 + low) &&
        decide (0xdc00 + low ≤ 0xdfff)) = true := by
      simp only [Bool.and_eq_true, decide_eq_true_eq]
      omega
    simp only [List.cons_append, lowSurrogate, hread, Read.andThen_ok, hrange,
      if_true, Nat.add_sub_cancel_left, ← hc]

theorem escape_sound (h : escape cs = .ok (c, rest)) :
    ∃ w, Spelling c ('\\' :: w) ∧ cs = w ++ rest := by
  rw [escape.eq_def] at h
  split at h
  · cases h
  · obtain ⟨v, rest', hfour, hunit⟩ := Read.andThen_eq_ok.1 h
    obtain ⟨ds, hds, rfl⟩ := hexEscape_eq_ok_iff.1 hfour
    have hlt := hds.lt
    simp only [Bool.and_eq_true, decide_eq_true_eq] at hunit
    split at hunit
    · cases hunit
    · split at hunit
      · -- The first of two surrogates.
        obtain ⟨low, ds', hlow, hds', rfl, hc⟩ :=
          lowSurrogate_eq_ok_iff.1 hunit
        refine ⟨'u' :: ds ++ '\\' :: 'u' :: ds', ?_, by simp⟩
        have hhigh : v - 0xd800 < 0x400 := by omega
        refine .surrogates hhigh hlow ?_ hds' ?_
        · rwa [Nat.add_sub_cancel' (by omega)]
        · rw [hc, toNat_ofNat_of_notSurrogate (by omega) (by omega)]
      · obtain ⟨rfl, rfl⟩ := Prod.mk.inj (Except.ok.inj hunit)
        refine ⟨'u' :: ds, .number ?_, rfl⟩
        rwa [toNat_ofNat_of_notSurrogate (by omega) (by omega)]
  · split at h
    · rename_i hletter
      obtain ⟨rfl, rfl⟩ := Prod.mk.inj (Except.ok.inj h)
      exact ⟨_, spelling_of_escapeLetter? hletter, rfl⟩
    · cases h

theorem escape_number (h : HexFour c.toNat ds) (rest : List Char) :
    escape ('u' :: ds ++ rest) = .ok (c, rest) := by
  have hread : hexEscape (ds ++ rest) = .ok (c.toNat, rest) :=
    hexEscape_eq_ok_iff.2 ⟨ds, h, rfl⟩
  have hvalid := toNat_notSurrogate c
  simp only [List.cons_append, escape, hread, Read.andThen_ok, Bool.and_eq_true,
    decide_eq_true_eq, Char.ofNat_toNat]
  rw [if_neg (by omega), if_neg (by omega)]

theorem escape_surrogates {high low : Nat} {ds' : List Char}
    (hhigh : high < 0x400) (hlow : low < 0x400) (h : HexFour (0xd800 + high) ds)
    (h' : HexFour (0xdc00 + low) ds')
    (hc : c.toNat = high * 0x400 + low + 0x10000) (rest : List Char) :
    escape ('u' :: ds ++ ('\\' :: 'u' :: ds' ++ rest)) = .ok (c, rest) := by
  have hread : hexEscape (ds ++ ('\\' :: 'u' :: ds' ++ rest)) =
      .ok (0xd800 + high, '\\' :: 'u' :: ds' ++ rest) :=
    hexEscape_eq_ok_iff.2 ⟨ds, h, rfl⟩
  have hsecond : lowSurrogate (0xd800 + high) ('\\' :: 'u' :: ds' ++ rest) =
      .ok (c, rest) := by
    refine lowSurrogate_eq_ok_iff.2 ⟨low, ds', hlow, h', rfl, ?_⟩
    rw [Nat.add_sub_cancel_left, ← hc, Char.ofNat_toNat]
  simp only [List.cons_append, escape] at hread hsecond ⊢
  simp only [hread, Read.andThen_ok, Bool.and_eq_true, decide_eq_true_eq]
  rw [if_neg (by omega), if_pos (by omega), hsecond]

/-- One spelled character is read in one step. -/
theorem stringFrom_spelling {w : List Char} (h : Spelling c w) (fuel : Nat)
    (done rest : List Char) :
    stringFrom (fuel + 1) done (w ++ rest) = stringFrom fuel (c :: done) rest := by
  cases h with
  | plain hspace hquote hbackslash =>
      have hcontrol : ¬ c < ' ' := Char.not_lt.2 hspace
      simp [stringFrom, hcontrol]
  | number h =>
      have hread := escape_number h rest
      simp only [List.cons_append] at hread ⊢
      simp only [stringFrom, hread, Read.andThen_ok]
  | surrogates hhigh hlow h h' hc =>
      have hread := escape_surrogates hhigh hlow h h' hc rest
      simp only [List.cons_append, List.append_assoc] at hread ⊢
      simp only [stringFrom, hread, Read.andThen_ok]
  | _ => rfl

theorem stringFrom_spelled {s body : List Char} (h : Spelled s body) {fuel : Nat}
    (hfuel : body.length < fuel) (done rest : List Char) :
    stringFrom fuel done (body ++ '"' :: rest) =
      .ok (String.ofList (done.reverse ++ s), rest) := by
  induction h generalizing fuel done with
  | nil =>
      cases fuel with
      | zero => exact absurd hfuel (Nat.not_lt_zero _)
      | succ fuel => simp [stringFrom]
  | @cons c s w ws hw _ ih =>
      have hpos : 0 < w.length := by cases hw <;> simp
      rw [List.length_append] at hfuel
      cases fuel with
      | zero => exact absurd hfuel (Nat.not_lt_zero _)
      | succ fuel =>
          rw [List.append_assoc, stringFrom_spelling hw, ih (by omega)]
          simp

theorem stringFrom_sound {fuel : Nat} {done : List Char} {s : String}
    (h : stringFrom fuel done cs = .ok (s, rest)) :
    ∃ cs' body, Spelled cs' body ∧ cs = body ++ '"' :: rest ∧
      s = String.ofList (done.reverse ++ cs') := by
  induction fuel generalizing done cs with
  | zero => cases h
  | succ fuel ih =>
      rw [stringFrom.eq_def] at h
      dsimp only at h
      split at h
      · cases h
      · obtain ⟨rfl, rfl⟩ := Prod.mk.inj (Except.ok.inj h)
        exact ⟨[], [], .nil, rfl, by simp⟩
      · obtain ⟨c, rest', hescape, hmore⟩ := Read.andThen_eq_ok.1 h
        obtain ⟨w, hw, rfl⟩ := escape_sound hescape
        obtain ⟨cs', body, hbody, rfl, rfl⟩ := ih hmore
        exact ⟨c :: cs', '\\' :: w ++ body, .cons hw hbody, by simp, by simp⟩
      · rename_i c rest' hquote hbackslash
        split at h
        · cases h
        · rename_i hcontrol
          obtain ⟨cs', body, hbody, rfl, rfl⟩ := ih h
          exact ⟨c :: cs', [c] ++ body,
            .cons (.plain (Char.not_lt.1 hcontrol) hquote hbackslash) hbody,
            rfl, by simp⟩

/-- A string is read, its opening quote already taken, when its text stands
there. -/
theorem string_eq_ok_iff {s : String} :
    string cs = .ok (s, rest) ↔ ∃ w, StringText s w ∧ '"' :: cs = w ++ rest := by
  constructor
  · intro h
    obtain ⟨cs', body, hbody, rfl, rfl⟩ := stringFrom_sound h
    exact ⟨_, .quoted (by simpa using hbody), by simp⟩
  · rintro ⟨w, ⟨hbody⟩, hcs⟩
    rename_i body
    have hcs : cs = body ++ '"' :: rest := by simpa using hcs
    subst hcs
    have hlength : body.length < (body ++ '"' :: rest).length + 1 := by
      simp only [List.length_append]
      omega
    rw [string, stringFrom_spelled hbody hlength]
    simp

end Lintmark.Json
