/-
The grammar of JSON texts.  Each relation says how one thing is written: space,
strings with their escapes, numbers, lists and objects, and values with space
around them.  Only the rounding of floating-point numbers is left to the reader.
-/
import Mathlib.Algebra.Group.Nat.Defs
import Lintmark.Json.Reader

namespace Lintmark.Json

def Space (cs : List Char) : Prop :=
  ∀ c ∈ cs, c = ' ' ∨ c = '\t' ∨ c = '\n' ∨ c = '\r'

theorem Space.nil : Space [] :=
  fun _ h => absurd h List.not_mem_nil

theorem Space.append {s s' : List Char} (h : Space s) (h' : Space s') :
    Space (s ++ s') := by
  intro c hc
  rcases List.mem_append.1 hc with hc | hc
  · exact h c hc
  · exact h' c hc

/-- A hexadecimal digit of either case, behind its value. -/
def HexDigit (v : Nat) (c : Char) : Prop :=
  "0123456789abcdef".toList[v]? = some c ∨
    "0123456789ABCDEF".toList[v]? = some c

/-- Four hexadecimal digits, behind the number that they write. -/
inductive HexFour : Nat → List Char → Prop where
  | digits {a b c d : Nat} {ca cb cc cd : Char} (ha : HexDigit a ca)
      (hb : HexDigit b cb) (hc : HexDigit c cc) (hd : HexDigit d cd) :
      HexFour (((a * 16 + b) * 16 + c) * 16 + d) [ca, cb, cc, cd]

/-- How a character is written inside a string: as it is, by a letter behind a
backslash, by its number, or by the numbers of its two surrogates. -/
inductive Spelling : Char → List Char → Prop where
  | plain {c : Char} (hspace : ' ' ≤ c) (hquote : c ≠ '"')
      (hbackslash : c ≠ '\\') : Spelling c [c]
  | quote : Spelling '"' ['\\', '"']
  | backslash : Spelling '\\' ['\\', '\\']
  | slash : Spelling '/' ['\\', '/']
  | backspace : Spelling '\x08' ['\\', 'b']
  | formFeed : Spelling '\x0c' ['\\', 'f']
  | lineFeed : Spelling '\n' ['\\', 'n']
  | carriageReturn : Spelling '\r' ['\\', 'r']
  | tab : Spelling '\t' ['\\', 't']
  | number {c : Char} {ds : List Char} (h : HexFour c.toNat ds) :
      Spelling c ('\\' :: 'u' :: ds)
  | surrogates {c : Char} {high low : Nat} {ds ds' : List Char}
      (hhigh : high < 0x400) (hlow : low < 0x400)
      (h : HexFour (0xd800 + high) ds) (h' : HexFour (0xdc00 + low) ds')
      (hc : c.toNat = high * 0x400 + low + 0x10000) :
      Spelling c ('\\' :: 'u' :: ds ++ '\\' :: 'u' :: ds')

inductive Spelled : List Char → List Char → Prop where
  | nil : Spelled [] []
  | cons {c : Char} {cs w ws : List Char} (h : Spelling c w)
      (hs : Spelled cs ws) : Spelled (c :: cs) (w ++ ws)

/-- A string is written between quotes. -/
inductive StringText (s : String) : List Char → Prop where
  | quoted {body : List Char} (h : Spelled s.toList body) :
      StringText s ('"' :: body ++ ['"'])

def isPlain (c : Char) : Bool :=
  ' ' ≤ c && c != '"' && c != '\\'

theorem Spelled.plain {cs : List Char} (h : cs.all isPlain) : Spelled cs cs := by
  induction cs with
  | nil => exact .nil
  | cons c cs ih =>
      rw [List.all_cons, Bool.and_eq_true] at h
      obtain ⟨hc, hcs⟩ := h
      simp only [isPlain, Bool.and_eq_true, decide_eq_true_eq, bne_iff_ne] at hc
      exact .cons (.plain hc.1.1 hc.1.2 hc.2) (ih hcs)

def Digits (cs : List Char) : Prop :=
  cs ≠ [] ∧ ∀ c ∈ cs, c.isDigit

/-- What may stand behind the whole digits of a number. -/
inductive Fraction : List Char → Prop where
  | none : Fraction []
  | point {ds : List Char} (h : Digits ds) : Fraction ('.' :: ds)

/-- What may stand at the end of a number. -/
inductive Exponent : List Char → Prop where
  | none : Exponent []
  | mark {e : Char} {sign ds : List Char} (he : e = 'e' ∨ e = 'E')
      (hsign : sign = [] ∨ sign = ['+'] ∨ sign = ['-']) (h : Digits ds) :
      Exponent (e :: sign ++ ds)

/-- The form of a number: a sign, digits without a needless zero, fraction and
exponent. -/
inductive Numeral : List Char → Prop where
  | parts {sign fraction exponent : List Char} (n : Nat)
      (hsign : sign = [] ∨ sign = ['-']) (hfraction : Fraction fraction)
      (hexponent : Exponent exponent) :
      Numeral (sign ++ (Nat.toDigits 10 n ++ fraction ++ exponent))

/-- How a number is written.  A whole number of 64 bits has its decimal digits
only; any other numeral in range is floating point, rounded as it is read. -/
inductive NumberText : Number → List Char → Prop where
  | natural {n : Nat} (h : n < 2 ^ 64) :
      NumberText (.natural n) (Nat.toDigits 10 n)
  | negative {n : Nat} (hpos : 0 < n) (h : n ≤ 2 ^ 63) :
      NumberText (.negative n) ('-' :: Nat.toDigits 10 n)
  | float {minus : Bool} {a : Decimal.Binary} {w : List Char} (h : Numeral w)
      (hvalue : number w = .ok (.float minus a, [])) :
      NumberText (.float minus a) w

/-- How things are written with commas between them.  Where there are none, only
space is left. -/
inductive Separated {α : Type} (Written : α → List Char → Prop) :
    List α → List Char → Prop where
  | none {s : List Char} (hs : Space s) : Separated Written [] s
  | one {a : α} {w : List Char} (h : Written a w) : Separated Written [a] w
  | more {a b : α} {as : List α} {w ws : List Char} (h : Written a w)
      (hs : Separated Written (b :: as) ws) :
      Separated Written (a :: b :: as) (w ++ ',' :: ws)

mutual

inductive ValueText : Value → List Char → Prop where
  | null : ValueText .null ['n', 'u', 'l', 'l']
  | true : ValueText (.bool true) ['t', 'r', 'u', 'e']
  | false : ValueText (.bool false) ['f', 'a', 'l', 's', 'e']
  | number {n : Number} {w : List Char} (h : NumberText n w) :
      ValueText (.number n) w
  | string {s : String} {w : List Char} (h : StringText s w) :
      ValueText (.string s) w
  | array {vs : List Value} {w : List Char} (h : Separated PaddedText vs w) :
      ValueText (.array vs) ('[' :: w ++ [']'])
  | object {ms : List (String × Value)} {w : List Char}
      (h : Separated MemberText ms w) :
      ValueText (.object ms) ('{' :: w ++ ['}'])

/-- How a value is written with space around it. -/
inductive PaddedText : Value → List Char → Prop where
  | padded {v : Value} {s w s' : List Char} (hs : Space s) (hv : ValueText v w)
      (hs' : Space s') : PaddedText v (s ++ w ++ s')

/-- How a member of an object is written, with space around its name. -/
inductive MemberText : String × Value → List Char → Prop where
  | named {name : String} {v : Value} {s k s' w : List Char} (hs : Space s)
      (hk : StringText name k) (hs' : Space s') (hv : PaddedText v w) :
      MemberText (name, v) (s ++ k ++ s' ++ ':' :: w)

end

theorem PaddedText.plain {v : Value} {w : List Char} (h : ValueText v w) :
    PaddedText v w := by
  have hpadded := PaddedText.padded Space.nil h Space.nil
  rwa [List.nil_append, List.append_nil] at hpadded

theorem PaddedText.behind {v : Value} {s w : List Char} (hs : Space s)
    (h : ValueText v w) : PaddedText v (s ++ w) := by
  have hpadded := PaddedText.padded hs h Space.nil
  rwa [List.append_nil] at hpadded

theorem PaddedText.append_space {v : Value} {w s : List Char} (h : PaddedText v w)
    (hs : Space s) : PaddedText v (w ++ s) := by
  cases h with
  | padded hfront hv hback =>
      rw [List.append_assoc]
      exact .padded hfront hv (hback.append hs)

theorem MemberText.append_space {m : String × Value} {w s : List Char}
    (h : MemberText m w) (hs : Space s) : MemberText m (w ++ s) := by
  cases h with
  | named hfront hk hback hv =>
      rw [List.append_assoc, List.cons_append]
      exact .named hfront hk hback (hv.append_space hs)

theorem MemberText.plain (name : String) {v : Value} {w : List Char}
    (hname : name.toList.all isPlain) (hv : PaddedText v w) :
    MemberText (name, v) ('"' :: name.toList ++ '"' :: ':' :: w) := by
  have hmember := MemberText.named Space.nil (.quoted (.plain hname)) Space.nil hv
  simpa using hmember

/-- Lists and objects nest at most so many levels deep. -/
def Value.Within : Nat → Value → Prop
  | levels + 1, .array vs => ∀ v ∈ vs, v.Within levels
  | levels + 1, .object ms => ∀ m ∈ ms, m.2.Within levels
  | 0, .array _ => False
  | 0, .object _ => False
  | _, _ => True

theorem Value.within_array {levels : Nat} {vs : List Value} :
    (Value.array vs).Within levels ↔
      ∃ inner, levels = inner + 1 ∧ ∀ v ∈ vs, v.Within inner := by
  cases levels with
  | zero => simp [Value.Within]
  | succ inner => simp [Value.Within]

theorem Value.within_object {levels : Nat} {ms : List (String × Value)} :
    (Value.object ms).Within levels ↔
      ∃ inner, levels = inner + 1 ∧ ∀ m ∈ ms, m.2.Within inner := by
  cases levels with
  | zero => simp [Value.Within]
  | succ inner => simp [Value.Within]

theorem Value.Within.mono {levels more : Nat} {v : Value} (h : v.Within levels)
    (hle : levels ≤ more) : v.Within more := by
  induction levels generalizing more v with
  | zero => cases v <;> simp_all [Value.Within]
  | succ levels ih =>
      obtain ⟨more, rfl⟩ : ∃ k, more = k + 1 := ⟨more - 1, by omega⟩
      have hle := Nat.le_of_succ_le_succ hle
      cases v with
      | array vs => exact fun v hv => ih (h v hv) hle
      | object ms => exact fun m hm => ih (h m hm) hle
      | null => trivial
      | bool b => trivial
      | number n => trivial
      | string s => trivial

/-- Each of finitely many values nests within some levels, so all do within some. -/
theorem Value.exists_within_of_forall {α : Type} {value : α → Value} (as : List α)
    (h : ∀ a ∈ as, ∃ levels, (value a).Within levels) :
    ∃ levels, ∀ a ∈ as, (value a).Within levels := by
  induction as with
  | nil => exact ⟨0, fun a ha => absurd ha List.not_mem_nil⟩
  | cons a as ih =>
      obtain ⟨levels, hlevels⟩ := h a List.mem_cons_self
      obtain ⟨levels', hlevels'⟩ := ih fun b hb => h b (List.mem_cons_of_mem a hb)
      refine ⟨max levels levels', ?_⟩
      intro b hb
      rcases List.mem_cons.1 hb with rfl | hb
      · exact hlevels.mono (Nat.le_max_left _ _)
      · exact (hlevels' b hb).mono (Nat.le_max_right _ _)

theorem Value.exists_within (v : Value) : ∃ levels, v.Within levels := by
  cases v with
  | array vs =>
      obtain ⟨levels, h⟩ := exists_within_of_forall vs fun v hv => exists_within v
      exact ⟨levels + 1, h⟩
  | object ms =>
      obtain ⟨levels, h⟩ := exists_within_of_forall ms fun m hm => exists_within m.2
      exact ⟨levels + 1, h⟩
  | null => exact ⟨0, trivial⟩
  | bool b => exact ⟨0, trivial⟩
  | number n => exact ⟨0, trivial⟩
  | string s => exact ⟨0, trivial⟩
termination_by sizeOf v
decreasing_by
  · have hlt := List.sizeOf_lt_of_mem hv
    simp only [Value.array.sizeOf_spec]
    omega
  · have hlt := List.sizeOf_lt_of_mem hm
    have hm2 : sizeOf m.2 < sizeOf m := by
      cases m
      simp only [Prod.mk.sizeOf_spec]
      omega
    simp only [Value.object.sizeOf_spec]
    omega

end Lintmark.Json
