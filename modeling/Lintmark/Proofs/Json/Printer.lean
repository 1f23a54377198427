/-
What is written can be read.  A tree is written as a text of the value that it
stands for, at any depth.
-/
import Mathlib.Tactic.IntervalCases
import Lintmark.Json.Printer
import Lintmark.Proofs.Json.Grammar

namespace Lintmark.Json

theorem hexDigit_digitChar {n : Nat} (h : n < 16) : HexDigit n (Nat.digitChar n) := by
  interval_cases n <;> exact Or.inl rfl

theorem escaped_spelling (c : Char) : Spelling c (escaped c) := by
  rw [escaped.eq_def]
  split
  · exact .quote
  · exact .backslash
  · exact .backspace
  · exact .formFeed
  · exact .lineFeed
  · exact .carriageReturn
  · exact .tab
  · rename_i hquote hbackslash _ _ _ _ _
    split
    · rename_i hcontrol
      have hlow : c.toNat < 32 := hcontrol
      have hdigits := HexFour.digits (Or.inl rfl : HexDigit 0 '0')
        (Or.inl rfl : HexDigit 0 '0')
        (hexDigit_digitChar (by omega : c.toNat / 16 < 16))
        (hexDigit_digitChar (by omega : c.toNat % 16 < 16))
      have hvalue : ((0 * 16 + 0) * 16 + c.toNat / 16) * 16 + c.toNat % 16 = c.toNat := by
        omega
      rw [hvalue] at hdigits
      exact .number hdigits
    · rename_i hcontrol
      exact .plain (Char.not_lt.1 hcontrol) hquote hbackslash

theorem escaped_spelled (cs : List Char) : Spelled cs (cs.flatMap escaped) := by
  induction cs with
  | nil => exact .nil
  | cons c cs ih => exact .cons (escaped_spelling c) ih

theorem writtenString_text (s : String) : StringText s (writtenString s) :=
  .quoted (escaped_spelled s.toList)

theorem newLine_space (depth : Nat) : Space (newLine depth) := by
  intro c hc
  rcases List.mem_cons.1 hc with rfl | hc
  · exact Or.inr (Or.inr (Or.inl rfl))
  · exact Or.inl (List.eq_of_mem_replicate hc)

mutual

def Tree.value : Tree → Value
  | .null => .null
  | .bool b => .bool b
  | .natural n => .number (.natural n)
  | .string s => .string s
  | .array items => .array (Tree.values items)
  | .object members => .object (Tree.memberValues members)

def Tree.values : List Tree → List Value
  | [] => []
  | t :: ts => t.value :: Tree.values ts

def Tree.memberValues : List (String × Tree) → List (String × Value)
  | [] => []
  | (k, t) :: ms => (k, t.value) :: Tree.memberValues ms

end

mutual

/-- Every number of a tree has 64 bits. -/
def Tree.Fits : Tree → Prop
  | .natural n => n < 2 ^ 64
  | .array items => Tree.AllFit items
  | .object members => Tree.MembersFit members
  | _ => True

def Tree.AllFit : List Tree → Prop
  | [] => True
  | t :: ts => t.Fits ∧ Tree.AllFit ts

def Tree.MembersFit : List (String × Tree) → Prop
  | [] => True
  | (_, t) :: ms => t.Fits ∧ Tree.MembersFit ms

end

theorem Tree.values_eq_map (ts : List Tree) : Tree.values ts = ts.map Tree.value := by
  induction ts with
  | nil => rfl
  | cons t ts ih => rw [Tree.values, ih, List.map_cons]

theorem Tree.allFit_iff {ts : List Tree} : Tree.AllFit ts ↔ ∀ t ∈ ts, t.Fits := by
  induction ts with
  | nil => simp [Tree.AllFit]
  | cons t ts ih => rw [Tree.AllFit, ih, List.forall_mem_cons]

theorem writtenMember_text {v : Value} {w : List Char} (k : String) (depth : Nat)
    (h : ValueText v w) :
    MemberText (k, v) (newLine depth ++ writtenString k ++ [':', ' '] ++ w) := by
  have hspace : Space [' '] := fun c hc => Or.inl (List.mem_singleton.1 hc)
  have hmember := MemberText.named (newLine_space depth) (writtenString_text k) Space.nil
    (PaddedText.behind hspace h)
  simpa using hmember

mutual

/-- A tree is written as a text of its value. -/
theorem Tree.written_text (depth : Nat) :
    (t : Tree) → t.Fits → ValueText t.value (t.written depth)
  | .null, _ => .null
  | .bool true, _ => .true
  | .bool false, _ => .false
  | .natural n, h => .number (.natural h)
  | .string s, _ => .string (writtenString_text s)
  | .array [], _ => .array (.none Space.nil)
  | .array (t :: ts), h => by
      obtain ⟨ht, hts⟩ := h
      have hitem := PaddedText.behind (newLine_space (depth + 1))
        (t.written_text (depth + 1) ht)
      have hitems := Tree.writtenItems_text (depth + 1) ts hts hitem (newLine_space depth)
      simpa [Tree.written, Tree.value, Tree.values] using ValueText.array hitems
  | .object [], _ => .object (.none Space.nil)
  | .object ((k, t) :: ms), h => by
      obtain ⟨ht, hms⟩ := h
      have hmember := writtenMember_text k (depth + 1) (t.written_text (depth + 1) ht)
      have hmembers := Tree.writtenMembers_text (depth + 1) ms hms hmember
        (newLine_space depth)
      simpa [Tree.written, Tree.value, Tree.memberValues] using ValueText.object hmembers

theorem Tree.writtenItems_text (depth : Nat) :
    (ts : List Tree) → Tree.AllFit ts → ∀ {v : Value} {w s : List Char},
      PaddedText v w → Space s →
      Separated PaddedText (v :: Tree.values ts) (w ++ Tree.writtenItems depth ts ++ s)
  | [], _, v, w, s, hw, hs => by
      rw [Tree.writtenItems, List.append_nil]
      exact .one (hw.append_space hs)
  | t :: ts, h, v, w, s, hw, hs => by
      have hitem := PaddedText.behind (newLine_space depth) (t.written_text depth h.1)
      have hitems := Tree.writtenItems_text depth ts h.2 hitem hs
      simpa [Tree.writtenItems, Tree.values] using Separated.more hw hitems

theorem Tree.writtenMembers_text (depth : Nat) :
    (ms : List (String × Tree)) → Tree.MembersFit ms →
      ∀ {m : String × Value} {w s : List Char}, MemberText m w → Space s →
      Separated MemberText (m :: Tree.memberValues ms)
        (w ++ Tree.writtenMembers depth ms ++ s)
  | [], _, m, w, s, hw, hs => by
      rw [Tree.writtenMembers, List.append_nil]
      exact .one (hw.append_space hs)
  | (k, t) :: ms, h, m, w, s, hw, hs => by
      have hmember := writtenMember_text k depth (t.written_text depth h.1)
      have hmembers := Tree.writtenMembers_text depth ms h.2 hmember hs
      simpa [Tree.writtenMembers, Tree.memberValues] using Separated.more hw hmembers

end

theorem Tree.text_text {t : Tree} (h : t.Fits) : PaddedText t.value t.text.toList := by
  rw [Tree.text, String.toList_ofList]
  exact .plain (t.written_text 0 h)

end Lintmark.Json
