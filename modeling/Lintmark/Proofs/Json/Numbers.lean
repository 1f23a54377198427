/-
Reading numbers.  The reader takes a number exactly when the text in front of it
is one and what follows does not go on with it.  Digits are compared with the
decimal notation of the number that they write.
-/
import Mathlib.Data.List.TakeWhile
import Mathlib.Tactic.IntervalCases
import Lintmark.Proofs.Json.Grammar

namespace Lintmark.Json

variable {c : Char} {cs ds rest : List Char} {minus down : Bool} {m n : Nat}
  {start : Int} {v : Number}

theorem digitValue_lt (h : c.isDigit) : digitValue c < 10 := by
  simp only [Char.isDigit, Bool.and_eq_true, decide_eq_true_eq, ge_iff_le,
    UInt32.le_iff_toNat_le] at h
  have hhigh : c.toNat ≤ 57 := h.2
  have hzero : '0'.toNat = 48 := rfl
  rw [digitValue]
  omega

theorem digitChar_digitValue (h : c.isDigit) :
    Nat.digitChar (digitValue c) = c := by
  have hchar : Char.ofNat c.toNat = c := Char.ofNat_toNat c
  simp only [Char.isDigit, Bool.and_eq_true, decide_eq_true_eq, ge_iff_le,
    UInt32.le_iff_toNat_le] at h
  have hlow : 48 ≤ c.toNat := h.1
  have hhigh : c.toNat ≤ 57 := h.2
  rw [digitValue]
  conv => rhs; rw [← hchar]
  generalize c.toNat = k at hlow hhigh
  interval_cases k <;> rfl

/-- Digits behind the notation of a number that is not zero go on with it. -/
theorem toDigits_append (hpos : 0 < n) (hds : ∀ c ∈ ds, c.isDigit) :
    Nat.toDigits 10 n ++ ds = Nat.toDigits 10 (Nat.ofDigitChars 10 ds n) := by
  induction ds generalizing n with
  | nil => simp
  | cons d ds ih =>
      have hd : d.isDigit := hds d List.mem_cons_self
      have hmore := Nat.toDigits_append_toDigits (by decide) hpos
        (digitValue_lt hd)
      rw [Nat.toDigits_of_lt_base (digitValue_lt hd), digitChar_digitValue hd]
        at hmore
      have hnext : 0 < 10 * n + digitValue d := by omega
      calc
        Nat.toDigits 10 n ++ d :: ds = (Nat.toDigits 10 n ++ [d]) ++ ds := by
          simp
        _ = Nat.toDigits 10 (10 * n + digitValue d) ++ ds := by rw [hmore]
        _ = Nat.toDigits 10 (Nat.ofDigitChars 10 (d :: ds) n) := by
          rw [ih hnext fun c hc => hds c (List.mem_cons_of_mem d hc),
            Nat.ofDigitChars_cons, digitValue]

/-- Digits without a needless zero are the notation of what they write. -/
theorem toDigits_ofDigitChars (hds : Digits ds)
    (hzero : ∀ d ds', ds ≠ '0' :: d :: ds') :
    Nat.toDigits 10 (Nat.ofDigitChars 10 ds 0) = ds := by
  obtain ⟨hnil, hdigits⟩ := hds
  cases ds with
  | nil => exact absurd rfl hnil
  | cons d ds =>
      have hd : d.isDigit := hdigits d List.mem_cons_self
      have hfirst : Nat.toDigits 10 (digitValue d) = [d] := by
        rw [Nat.toDigits_of_lt_base (digitValue_lt hd), digitChar_digitValue hd]
      have hvalue : Nat.ofDigitChars 10 (d :: ds) 0 =
          Nat.ofDigitChars 10 ds (digitValue d) := by
        rw [Nat.ofDigitChars_cons, Nat.mul_zero, Nat.zero_add, digitValue]
      rw [hvalue]
      rcases Nat.eq_zero_or_pos (digitValue d) with hz | hpos
      · rw [hz, Nat.toDigits_zero] at hfirst
        obtain ⟨rfl, -⟩ := List.cons.inj hfirst
        cases ds with
        | nil => rfl
        | cons d' ds' => exact absurd rfl (hzero d' ds')
      · rw [← toDigits_append hpos
          fun c hc => hdigits c (List.mem_cons_of_mem d hc), hfirst]
        rfl

theorem digits_toDigits (n : Nat) : Digits (Nat.toDigits 10 n) :=
  ⟨Nat.toDigits_ne_nil, fun _ hc =>
    Nat.isDigit_of_mem_toDigits (by decide) (by decide) hc⟩

theorem toDigits_head?_ne_zero (hpos : 0 < n) :
    (Nat.toDigits 10 n).head? ≠ some '0' := by
  induction n using Nat.strongRecOn with
  | ind n ih =>
      rw [Nat.toDigits_eq_if (by decide)]
      split
      · interval_cases n <;> decide
      · have hfront := ih (n / 10) (by omega) (by omega)
        rwa [List.head?_append,
          Option.or_of_isSome (List.isSome_head?.2 Nat.toDigits_ne_nil)]

theorem toDigits_ne_zero_cons (n : Nat) (d : Char) (ds : List Char) :
    Nat.toDigits 10 n ≠ '0' :: d :: ds := by
  intro h
  rcases Nat.eq_zero_or_pos n with rfl | hpos
  · rw [Nat.toDigits_zero] at h
    cases h
  · have hhead := toDigits_head?_ne_zero hpos
    rw [h] at hhead
    exact hhead rfl

/-- What follows does not go on with a number. -/
def Stops (rest : List Char) : Prop :=
  ∀ c, rest.head? = some c → ¬ c.isDigit ∧ c ≠ '.' ∧ c ≠ 'e' ∧ c ≠ 'E'

theorem Stops.nil : Stops [] := by
  intro c hc
  cases hc

theorem Stops.cons (h : ¬ c.isDigit ∧ c ≠ '.' ∧ c ≠ 'e' ∧ c ≠ 'E')
    (rest : List Char) : Stops (c :: rest) := by
  intro d hd
  cases hd
  exact h

theorem Stops.notDigit (h : Stops rest) (c : Char) (hc : rest.head? = some c) :
    ¬ c.isDigit :=
  (h c hc).1

theorem Stops.ne_cons (h : Stops rest) (hc : c = '.' ∨ c = 'e' ∨ c = 'E')
    (cs : List Char) : rest ≠ c :: cs := by
  rintro rfl
  have hstop := (h c rfl).2
  rcases hc with rfl | rfl | rfl
  · exact hstop.1 rfl
  · exact hstop.2.1 rfl
  · exact hstop.2.2 rfl

theorem spanDigits_append (hds : ∀ c ∈ ds, c.isDigit)
    (hrest : ∀ c, rest.head? = some c → ¬ c.isDigit) :
    spanDigits (ds ++ rest) = (ds, rest) := by
  have hstop : rest.takeWhile isDigit = [] ∧ rest.dropWhile isDigit = rest := by
    cases rest with
    | nil => exact ⟨rfl, rfl⟩
    | cons c rest =>
        have hc : ¬ isDigit c = true := hrest c rfl
        simp [hc]
  have hall : ∀ c ∈ ds, isDigit c = true := hds
  rw [spanDigits, List.takeWhile_append_of_pos hall,
    List.dropWhile_append_of_pos hall, hstop.1, hstop.2, List.append_nil]

/-- Either no digit stands in front, or all digits there are split off. -/
theorem spanDigits_cases (cs : List Char) :
    (∃ rest, spanDigits cs = ([], rest)) ∨
      ∃ d ds rest, spanDigits cs = (d :: ds, rest) ∧ cs = d :: ds ++ rest ∧
        Digits (d :: ds) ∧ ∀ c, rest.head? = some c → ¬ c.isDigit := by
  have happend := List.takeWhile_append_dropWhile (p := isDigit) (l := cs)
  have hdigits : ∀ c ∈ cs.takeWhile isDigit, c.isDigit := fun c hc =>
    List.mem_takeWhile_imp hc
  have hstop : ∀ c, (cs.dropWhile isDigit).head? = some c → ¬ c.isDigit := by
    intro c hc hdigit
    have hnot := List.head?_dropWhile_not isDigit cs
    rw [hc] at hnot
    exact Bool.eq_false_iff.1 hnot hdigit
  rw [spanDigits]
  cases hfront : cs.takeWhile isDigit with
  | nil => exact Or.inl ⟨_, rfl⟩
  | cons d ds =>
      rw [hfront] at happend hdigits
      exact Or.inr ⟨d, ds, _, rfl, happend.symm, ⟨by simp, hdigits⟩, hstop⟩

/-- All digits are taken when their number has 64 bits. -/
theorem takeDigits_of_lt (h : Nat.ofDigitChars 10 ds n < 2 ^ 64) :
    takeDigits n ds = (Nat.ofDigitChars 10 ds n, ds.length) := by
  induction ds generalizing n with
  | nil => rfl
  | cons d ds ih =>
      have hnext : 10 * n + (d.toNat - '0'.toNat) = n * 10 + digitValue d := by
        rw [Nat.mul_comm, digitValue]
      rw [Nat.ofDigitChars_cons, hnext] at h ⊢
      have hlt : n * 10 + digitValue d < Nat.pow 2 64 := by
        refine Nat.lt_of_le_of_lt ?_ h
        rw [Nat.ofDigitChars_eq_ofDigitChars_zero]
        exact Nat.le_trans (Nat.le_mul_of_pos_left _ (Nat.pow_pos (by decide)))
          (Nat.le_add_right _ _)
      rw [takeDigits]
      simp only [hlt, if_true, ih h, List.length_cons]

/-- Their number has 64 bits when all digits are taken. -/
theorem lt_of_takeDigits (hn : n < 2 ^ 64)
    (h : ds.length ≤ (takeDigits n ds).2) :
    Nat.ofDigitChars 10 ds n < 2 ^ 64 := by
  induction ds generalizing n with
  | nil => simpa using hn
  | cons d ds ih =>
      have hnext : 10 * n + (d.toNat - '0'.toNat) = n * 10 + digitValue d := by
        rw [Nat.mul_comm, digitValue]
      simp only [takeDigits, List.length_cons] at h
      rw [Nat.ofDigitChars_cons, hnext]
      split at h
      · rename_i hlt
        exact ih hlt (Nat.le_of_succ_le_succ h)
      · exact absurd h (by simp)

/-- A reader takes a text for a value wherever what follows stops a number. -/
def Takes (read : List Char → Read Number) (w : List Char) (v : Number) : Prop :=
  ∀ rest, Stops rest → read (w ++ rest) = .ok (v, rest)

/-- What a reader takes has the given form, is taken wherever it stands, and
makes a floating-point number. -/
def TakesFloat (read : List Char → Read Number) (minus : Bool)
    (Form : List Char → Prop) : Prop :=
  ∀ cs v rest, read cs = .ok (v, rest) →
    ∃ w a, Form w ∧ cs = w ++ rest ∧ v = .float minus a ∧ Takes read w v

theorem floating_takes (minus : Bool) (n : Nat) (start : Int) :
    TakesFloat (floating minus n start) minus (· = []) := by
  intro cs v rest h
  rw [floating] at h
  split at h
  · rename_i a hscale
    obtain ⟨rfl, rfl⟩ := Prod.mk.inj (Except.ok.inj h)
    refine ⟨[], a, rfl, rfl, rfl, fun rest _ => ?_⟩
    simp [floating, hscale]
  · cases h

/-- The number behind the digits of an exponent. -/
def raised (minus : Bool) (n : Nat) (start : Int) (down : Bool)
    (ds rest : List Char) : Read Number :=
  match exponentValue 0 ds with
  | .ok e => floating minus n (if down then start - e else start + e) rest
  | .error left =>
    if n ≠ 0 && !down then failBehind .numberOutOfRange (left ++ rest)
    else .ok (.float minus ⟨0⟩, rest)

theorem raised_takes (minus : Bool) (n : Nat) (start : Int) (down : Bool)
    (ds : List Char) :
    TakesFloat (raised minus n start down ds) minus (· = []) := by
  intro cs v rest h
  rw [raised] at h
  split at h
  · rename_i e hvalue
    obtain ⟨w, a, hw, hcs, hv, htakes⟩ := floating_takes _ _ _ _ _ _ h
    refine ⟨w, a, hw, hcs, hv, fun rest hrest => ?_⟩
    simpa [raised, hvalue] using htakes rest hrest
  · rename_i left hvalue
    split at h
    · cases h
    · rename_i hzero
      obtain ⟨rfl, rfl⟩ := Prod.mk.inj (Except.ok.inj h)
      refine ⟨[], _, rfl, rfl, rfl, fun rest _ => ?_⟩
      rw [List.nil_append, raised, hvalue]
      simp only [hzero]
      rfl

def exponentDigits (minus : Bool) (n : Nat) (start : Int) (down : Bool)
    (cs : List Char) : Read Number :=
  match spanDigits cs with
  | ([], []) => failBehind .eofInValue []
  | ([], rest) => failOn .invalidNumber rest
  | (ds, rest) => raised minus n start down ds rest

theorem exponentPart_plus (cs : List Char) :
    exponentPart minus n start ('+' :: cs) =
      exponentDigits minus n start false cs := rfl

theorem exponentPart_minus (cs : List Char) :
    exponentPart minus n start ('-' :: cs) =
      exponentDigits minus n start true cs := rfl

theorem exponentPart_unsigned (hplus : ∀ cs', cs ≠ '+' :: cs')
    (hminus : ∀ cs', cs ≠ '-' :: cs') :
    exponentPart minus n start cs = exponentDigits minus n start false cs :=
  exponentPart.eq_3 _ _ _ _ hplus hminus

theorem exponentDigits_append (hds : Digits ds)
    (hrest : ∀ c, rest.head? = some c → ¬ c.isDigit) :
    exponentDigits minus n start down (ds ++ rest) =
      raised minus n start down ds rest := by
  rw [exponentDigits, spanDigits_append hds.2 hrest]
  cases ds with
  | nil => exact absurd rfl hds.1
  | cons d ds => rfl

theorem exponentDigits_takes (minus : Bool) (n : Nat) (start : Int)
    (down : Bool) :
    TakesFloat (exponentDigits minus n start down) minus Digits := by
  intro cs v rest h
  rcases spanDigits_cases cs with ⟨rest', hspan⟩ | ⟨d, ds, rest', -, rfl, hds, hstop⟩
  · rw [exponentDigits, hspan] at h
    cases rest' with
    | nil => cases h
    | cons c rest' => cases h
  · rw [exponentDigits_append hds hstop] at h
    obtain ⟨w, a, rfl, rfl, hv, htakes⟩ := raised_takes _ _ _ _ _ _ _ _ h
    refine ⟨d :: ds, a, hds, rfl, hv, fun rest hrest => ?_⟩
    rw [exponentDigits_append hds hrest.notDigit]
    exact htakes rest hrest

theorem Digits.ne_cons (hds : Digits ds) (hc : ¬ c.isDigit) (rest cs : List Char) :
    ds ++ rest ≠ c :: cs := by
  obtain ⟨hnil, hdigits⟩ := hds
  cases ds with
  | nil => exact absurd rfl hnil
  | cons d ds =>
      intro h
      obtain ⟨rfl, -⟩ := List.cons.inj h
      exact hc (hdigits d List.mem_cons_self)

/-- An exponent behind its letter. -/
def SignedDigits (w : List Char) : Prop :=
  ∃ sign ds, (sign = [] ∨ sign = ['+'] ∨ sign = ['-']) ∧ Digits ds ∧ w = sign ++ ds

theorem exponentPart_takes (minus : Bool) (n : Nat) (start : Int) :
    TakesFloat (exponentPart minus n start) minus SignedDigits := by
  intro cs v rest h
  by_cases hplus : ∃ cs', cs = '+' :: cs'
  · obtain ⟨cs', rfl⟩ := hplus
    rw [exponentPart_plus] at h
    obtain ⟨w, a, hw, rfl, hv, htakes⟩ := exponentDigits_takes _ _ _ _ _ _ _ h
    exact ⟨'+' :: w, a, ⟨['+'], w, by simp, hw, rfl⟩, rfl, hv, htakes⟩
  by_cases hminus : ∃ cs', cs = '-' :: cs'
  · obtain ⟨cs', rfl⟩ := hminus
    rw [exponentPart_minus] at h
    obtain ⟨w, a, hw, rfl, hv, htakes⟩ := exponentDigits_takes _ _ _ _ _ _ _ h
    exact ⟨'-' :: w, a, ⟨['-'], w, by simp, hw, rfl⟩, rfl, hv, htakes⟩
  · rw [exponentPart_unsigned (not_exists.1 hplus) (not_exists.1 hminus)] at h
    obtain ⟨w, a, hw, rfl, hv, htakes⟩ := exponentDigits_takes _ _ _ _ _ _ _ h
    refine ⟨w, a, ⟨[], w, by simp, hw, rfl⟩, rfl, hv, fun rest hrest => ?_⟩
    rw [exponentPart_unsigned (hw.ne_cons (by decide) rest)
      (hw.ne_cons (by decide) rest)]
    exact htakes rest hrest

/-- An exponent with its letter. -/
theorem exponentPart_takes_mark (he : c = 'e' ∨ c = 'E')
    (h : exponentPart minus n start cs = .ok (v, rest)) :
    ∃ w a, Exponent (c :: w) ∧ cs = w ++ rest ∧ v = .float minus a ∧
      Takes (exponentPart minus n start) w v := by
  obtain ⟨w, a, ⟨sign, ds, hsign, hds, rfl⟩, hcs, hv, htakes⟩ :=
    exponentPart_takes _ _ _ _ _ _ h
  exact ⟨_, a, .mark he hsign hds, hcs, hv, htakes⟩

theorem scientific_takes (minus : Bool) (n : Nat) (start : Int) :
    TakesFloat (scientific minus n start) minus Exponent := by
  intro cs v rest h
  rw [scientific.eq_def] at h
  split at h
  · obtain ⟨w, a, he, rfl, hv, htakes⟩ := exponentPart_takes_mark (Or.inl rfl) h
    exact ⟨'e' :: w, a, he, rfl, hv, htakes⟩
  · obtain ⟨w, a, he, rfl, hv, htakes⟩ := exponentPart_takes_mark (Or.inr rfl) h
    exact ⟨'E' :: w, a, he, rfl, hv, htakes⟩
  · obtain ⟨w, a, rfl, rfl, hv, htakes⟩ := floating_takes _ _ _ _ _ _ h
    refine ⟨[], a, .none, rfl, hv, fun rest hrest => ?_⟩
    rw [List.nil_append, scientific.eq_3 _ _ _ _ (hrest.ne_cons (by simp))
      (hrest.ne_cons (by simp))]
    exact htakes rest hrest

theorem fractionPart_append (hds : Digits ds)
    (hrest : ∀ c, rest.head? = some c → ¬ c.isDigit) :
    fractionPart minus n start (ds ++ rest) =
      scientific minus (takeDigits n ds).1 (start - (takeDigits n ds).2) rest := by
  rw [fractionPart, spanDigits_append hds.2 hrest]
  cases ds with
  | nil => exact absurd rfl hds.1
  | cons d ds => rfl

/-- Digits behind the point, and the exponent behind them. -/
def Decimals (w : List Char) : Prop :=
  ∃ ds e, Digits ds ∧ Exponent e ∧ w = ds ++ e

theorem Exponent.notDigit {e : List Char} (he : Exponent e) (hrest : Stops rest)
    (c : Char) (hc : (e ++ rest).head? = some c) : ¬ c.isDigit := by
  cases he with
  | none => exact hrest.notDigit c hc
  | mark he hsign hds =>
      cases hc
      rcases he with rfl | rfl <;> decide

theorem Fraction.notDigit {f e : List Char} (hf : Fraction f) (he : Exponent e)
    (hrest : Stops rest) (c : Char) (hc : (f ++ (e ++ rest)).head? = some c) :
    ¬ c.isDigit := by
  cases hf with
  | none => exact he.notDigit hrest c hc
  | point hds =>
      cases hc
      decide

theorem fractionPart_takes (minus : Bool) (n : Nat) (start : Int) :
    TakesFloat (fractionPart minus n start) minus Decimals := by
  intro cs v rest h
  rcases spanDigits_cases cs with ⟨rest', hspan⟩ | ⟨d, ds, rest', -, rfl, hds, hstop⟩
  · rw [fractionPart, hspan] at h
    cases rest' with
    | nil => cases h
    | cons c rest' => cases h
  · rw [fractionPart_append hds hstop] at h
    obtain ⟨e, a, he, rfl, hv, htakes⟩ := scientific_takes _ _ _ _ _ _ h
    refine ⟨d :: ds ++ e, a, ⟨_, _, hds, he, rfl⟩, by simp, hv, fun rest hrest => ?_⟩
    rw [List.append_assoc, fractionPart_append hds (he.notDigit hrest)]
    exact htakes rest hrest

/-- Read what stands behind whole digits. -/
def afterDigits (minus : Bool) (ds rest : List Char) : Read Number :=
  let n := (takeDigits 0 ds).1
  let dropped : Int := (ds.length - (takeDigits 0 ds).2 : Nat)
  match rest with
  | '.' :: rest => fractionPart minus n dropped rest
  | 'e' :: rest => exponentPart minus n dropped rest
  | 'E' :: rest => exponentPart minus n dropped rest
  | _ =>
    if dropped = 0 then .ok (whole minus n, rest)
    else floating minus n dropped rest

theorem numberFrom_append (n : Nat)
    (hrest : ∀ c, rest.head? = some c → ¬ c.isDigit) :
    numberFrom minus (Nat.toDigits 10 n ++ rest) =
      afterDigits minus (Nat.toDigits 10 n) rest := by
  have hds := digits_toDigits n
  have hzero := toDigits_ne_zero_cons n
  generalize Nat.toDigits 10 n = ds at hds hzero ⊢
  rw [numberFrom, spanDigits_append hds.2 hrest]
  split
  · rename_i heq
    exact absurd (Prod.mk.inj heq).1 hds.1
  · rename_i heq
    exact absurd (Prod.mk.inj heq).1 hds.1
  · rename_i heq
    exact absurd (Prod.mk.inj heq).1 (hzero _ _)
  · rename_i heq
    obtain ⟨rfl, rfl⟩ := Prod.mk.inj heq
    rfl

theorem afterDigits_stops (hrest : Stops rest) :
    afterDigits minus ds rest =
      if ((ds.length - (takeDigits 0 ds).2 : Nat) : Int) = 0 then
        .ok (whole minus (takeDigits 0 ds).1, rest)
      else
        floating minus (takeDigits 0 ds).1
          ((ds.length - (takeDigits 0 ds).2 : Nat) : Int) rest :=
  afterDigits.eq_4 _ _ _ (hrest.ne_cons (by simp)) (hrest.ne_cons (by simp))
    (hrest.ne_cons (by simp))

theorem takeDigits_toDigits (h : n < 2 ^ 64) :
    takeDigits 0 (Nat.toDigits 10 n) = (n, (Nat.toDigits 10 n).length) := by
  have hvalue := Nat.ofDigitChars_ten_toDigits (n := n)
  rw [takeDigits_of_lt (by rwa [hvalue]), hvalue]

/-- A whole number without fraction and exponent has all its digits taken. -/
theorem afterDigits_whole (h : n < 2 ^ 64) (hrest : Stops rest) :
    afterDigits minus (Nat.toDigits 10 n) rest = .ok (whole minus n, rest) := by
  rw [afterDigits_stops hrest, takeDigits_toDigits h]
  simp

theorem afterDigits_takes
    (h : afterDigits minus (Nat.toDigits 10 n) cs = .ok (v, rest)) :
    ∃ f e, Fraction f ∧ Exponent e ∧ cs = f ++ e ++ rest ∧
      Takes (afterDigits minus (Nat.toDigits 10 n)) (f ++ e) v ∧
      (f = [] ∧ e = [] ∧ n < 2 ^ 64 ∧ v = whole minus n ∨
        ∃ a, v = .float minus a) := by
  rw [afterDigits.eq_def] at h
  dsimp only at h
  split at h
  · obtain ⟨w, a, ⟨ds, e, hds, he, rfl⟩, rfl, hv, htakes⟩ :=
      fractionPart_takes _ _ _ _ _ _ h
    exact ⟨'.' :: ds, e, .point hds, he, rfl, htakes, Or.inr ⟨a, hv⟩⟩
  · obtain ⟨w, a, he, rfl, hv, htakes⟩ := exponentPart_takes_mark (Or.inl rfl) h
    exact ⟨[], 'e' :: w, .none, he, rfl, htakes, Or.inr ⟨a, hv⟩⟩
  · obtain ⟨w, a, he, rfl, hv, htakes⟩ := exponentPart_takes_mark (Or.inr rfl) h
    exact ⟨[], 'E' :: w, .none, he, rfl, htakes, Or.inr ⟨a, hv⟩⟩
  · split at h
    · -- No digit was dropped, so the number has 64 bits.
      rename_i hdropped
      have hall : (Nat.toDigits 10 n).length ≤
          (takeDigits 0 (Nat.toDigits 10 n)).2 := by omega
      have hlt := lt_of_takeDigits (by decide) hall
      rw [Nat.ofDigitChars_ten_toDigits] at hlt
      rw [takeDigits_toDigits hlt] at h
      obtain ⟨hv, rfl⟩ := Prod.mk.inj (Except.ok.inj h)
      refine ⟨[], [], .none, .none, rfl, ?_, Or.inl ⟨rfl, rfl, hlt, hv.symm⟩⟩
      intro rest hrest
      rw [← hv]
      exact afterDigits_whole hlt hrest
    · rename_i hdropped
      obtain ⟨w, a, rfl, rfl, hv, htakes⟩ := floating_takes _ _ _ _ _ _ h
      refine ⟨[], [], .none, .none, rfl, ?_, Or.inr ⟨a, hv⟩⟩
      intro rest hrest
      rw [afterDigits_stops (by simpa using hrest), if_neg hdropped]
      exact htakes rest hrest

/-- What is read behind the sign is a numeral without one. -/
theorem numberFrom_takes (h : numberFrom minus cs = .ok (v, rest)) :
    ∃ n f e, Fraction f ∧ Exponent e ∧
      cs = Nat.toDigits 10 n ++ f ++ e ++ rest ∧
      Takes (numberFrom minus) (Nat.toDigits 10 n ++ f ++ e) v ∧
      (f = [] ∧ e = [] ∧ n < 2 ^ 64 ∧ v = whole minus n ∨
        ∃ a, v = .float minus a) := by
  rcases spanDigits_cases cs with ⟨rest', hspan⟩ | ⟨d, ds, rest', hspan, rfl, hds, hstop⟩
  · rw [numberFrom, hspan] at h
    cases rest' with
    | nil => cases h
    | cons c rest' => cases h
  · have hzero : ∀ d' ds', d :: ds ≠ '0' :: d' :: ds' := by
      intro d' ds' heq
      rw [numberFrom, hspan, heq] at h
      cases h
    have hcanonical := toDigits_ofDigitChars hds hzero
    generalize Nat.ofDigitChars 10 (d :: ds) 0 = n at hcanonical
    rw [← hcanonical, numberFrom_append n hstop] at h
    obtain ⟨f, e, hf, he, rfl, htakes, hv⟩ := afterDigits_takes h
    refine ⟨n, f, e, hf, he, by rw [hcanonical]; simp, fun rest hrest => ?_, hv⟩
    have htake := htakes rest hrest
    rw [List.append_assoc] at htake ⊢
    rw [List.append_assoc, numberFrom_append n (hf.notDigit he hrest)]
    exact htake

theorem number_unsigned (h : ∀ cs', cs ≠ '-' :: cs') :
    number cs = numberFrom false cs :=
  number.eq_2 _ h

theorem number_unsigned_toDigits (n : Nat) (rest : List Char) :
    number (Nat.toDigits 10 n ++ rest) =
      numberFrom false (Nat.toDigits 10 n ++ rest) :=
  number_unsigned ((digits_toDigits n).ne_cons (by decide) rest)

theorem whole_true_eq (hpos : 0 < n) (h : n ≤ 2 ^ 63) :
    whole true n = .negative n := by
  have hsmall : ¬ (n = 0 ∨ n > Nat.pow 2 63) := by
    have hpow : Nat.pow 2 63 = 2 ^ 63 := rfl
    omega
  simpa [whole] using hsmall

/-- What is read as a number is one. -/
theorem number_takes (h : number cs = .ok (v, rest)) :
    ∃ w, NumberText v w ∧ cs = w ++ rest ∧ Takes number w v := by
  by_cases hminus : ∃ cs', cs = '-' :: cs'
  · obtain ⟨cs', rfl⟩ := hminus
    change numberFrom true cs' = _ at h
    obtain ⟨n, f, e, hf, he, rfl, htakes, hv⟩ := numberFrom_takes h
    have hwhere : Takes number ('-' :: (Nat.toDigits 10 n ++ f ++ e)) v :=
      htakes
    have hself := hwhere [] Stops.nil
    rw [List.append_nil] at hself
    have hw := Numeral.parts n (Or.inr rfl) hf he
    refine ⟨_, ?_, rfl, hwhere⟩
    rcases hv with ⟨rfl, rfl, hlt, rfl⟩ | ⟨a, rfl⟩
    · -- Zero with a sign and numbers below `-2^63` are floating point.
      by_cases hsmall : 0 < n ∧ n ≤ 2 ^ 63
      · rw [whole_true_eq hsmall.1 hsmall.2, List.append_nil, List.append_nil]
        exact .negative hsmall.1 hsmall.2
      · have hlarge : n = 0 ∨ n > Nat.pow 2 63 := by
          have hpow : Nat.pow 2 63 = 2 ^ 63 := rfl
          omega
        have hfloat : whole true n = .float true (.ofNat n) := by
          simp [whole, hlarge]
        rw [hfloat] at hself ⊢
        exact .float hw hself
    · exact .float hw hself
  · rw [number_unsigned (not_exists.1 hminus)] at h
    obtain ⟨n, f, e, hf, he, rfl, htakes, hv⟩ := numberFrom_takes h
    have hwhere : Takes number (Nat.toDigits 10 n ++ f ++ e) v := by
      intro rest hrest
      have htake := htakes rest hrest
      rw [List.append_assoc, List.append_assoc] at htake ⊢
      rwa [number_unsigned_toDigits]
    have hself := hwhere [] Stops.nil
    rw [List.append_nil] at hself
    refine ⟨_, ?_, rfl, hwhere⟩
    rcases hv with ⟨rfl, rfl, hlt, rfl⟩ | ⟨a, rfl⟩
    · rw [List.append_nil, List.append_nil]
      exact .natural hlt
    · exact .float (Numeral.parts n (Or.inl rfl) hf he) hself

/-- A number is taken wherever it stands. -/
theorem NumberText.takes {w : List Char} (h : NumberText v w) :
    Takes number w v := by
  cases h with
  | @natural n hlt =>
      intro rest hrest
      rw [number_unsigned_toDigits, numberFrom_append n hrest.notDigit]
      exact afterDigits_whole hlt hrest
  | @negative n hpos hle =>
      intro rest hrest
      have hlt : n < 2 ^ 64 := by omega
      change numberFrom true (Nat.toDigits 10 n ++ rest) = _
      rw [numberFrom_append n hrest.notDigit, afterDigits_whole hlt hrest,
        whole_true_eq hpos hle]
  | float _ hvalue =>
      obtain ⟨w', -, hw', htakes⟩ := number_takes hvalue
      rw [hw', List.append_nil]
      exact htakes

theorem NumberText.numeral {w : List Char} (h : NumberText v w) : Numeral w := by
  cases h with
  | @natural n h => simpa using Numeral.parts n (Or.inl rfl) .none .none
  | @negative n hpos h => simpa using Numeral.parts n (Or.inr rfl) .none .none
  | float h hvalue => exact h

theorem Numeral.head {w : List Char} (h : Numeral w) :
    ∃ c cs, w = c :: cs ∧ (c = '-' ∨ c.isDigit) := by
  obtain ⟨n, hsign, hf, he⟩ := h
  rcases hsign with rfl | rfl
  · obtain ⟨hnil, hdigits⟩ := digits_toDigits n
    cases hds : Nat.toDigits 10 n with
    | nil => exact absurd hds hnil
    | cons d ds =>
        rw [hds] at hdigits
        exact ⟨d, _, rfl, Or.inr (hdigits d List.mem_cons_self)⟩
  · exact ⟨'-', _, rfl, Or.inl rfl⟩

end Lintmark.Json
