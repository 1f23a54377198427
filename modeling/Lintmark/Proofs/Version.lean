/-
The version in an answer, by positions.  The search by lines finds the first place
at the start of a line where the tag stands with something behind it, and what is
read there goes up to the end of that line.
-/
import Mathlib.Data.List.Basic
import Mathlib.Data.List.TakeWhile
import Lintmark.Linter.Program
import Lintmark.Proofs.Document.Cut

namespace Lintmark

open Document (WholeLines)

namespace Text

/-- A text without the blank characters at its ends is left of another one. -/
structure TrimsTo (cs kept : List Char) : Prop where
  cut : ∃ front back, cs = front ++ kept ++ back ∧
    (∀ c ∈ front, isBlank c) ∧ ∀ c ∈ back, isBlank c
  head : ∀ c, kept.head? = some c → ¬ isBlank c
  last : ∀ c, kept.getLast? = some c → ¬ isBlank c

theorem exists_trimEnd (cs : List Char) :
    ∃ back, cs = trimEnd cs ++ back ∧ ∀ c ∈ back, isBlank c := by
  refine ⟨(cs.reverse.takeWhile isBlank).reverse, ?_, ?_⟩
  · rw [trimEnd, ← List.reverse_append, List.takeWhile_append_dropWhile,
      List.reverse_reverse]
  · intro c hc
    exact List.mem_takeWhile_imp (List.mem_reverse.mp hc)

theorem getLast?_trimEnd {cs : List Char} {c : Char}
    (hc : (trimEnd cs).getLast? = some c) : ¬ isBlank c := by
  have hnot := List.head?_dropWhile_not isBlank cs.reverse
  rw [trimEnd, List.getLast?_reverse] at hc
  rw [hc] at hnot
  simpa using hnot

theorem trimsTo_trimBoth (cs : List Char) : TrimsTo cs (trimBoth cs) := by
  obtain ⟨back, hback, hblank⟩ := exists_trimEnd (cs.dropWhile isBlank)
  refine ⟨⟨cs.takeWhile isBlank, back, ?_, ?_, hblank⟩, ?_, fun c => getLast?_trimEnd⟩
  · rw [trimBoth, List.append_assoc, ← hback, List.takeWhile_append_dropWhile]
  · exact fun c hc => List.mem_takeWhile_imp hc
  · intro c hc
    have hnot := List.head?_dropWhile_not isBlank cs
    rw [hback, List.head?_append, ← trimBoth, hc] at hnot
    simpa using hnot

end Text

open Text (TrimsTo)

def StartsLine (cs : List Char) (k : Nat) : Prop :=
  k = 0 ∨ cs[k - 1]? = some '\n'

/-- The tag stands at an offset where a line starts, and on the same line there is
something behind it. -/
def TagAt (cs : List Char) (k : Nat) : Prop :=
  StartsLine cs k ∧ ∃ c, c ≠ '\n' ∧ versionTag ++ [c] <+: cs.drop k

/-- The rest of the line behind a tag. -/
def behindTag (cs : List Char) (k : Nat) : List Char :=
  (cs.drop (k + versionTag.length)).takeWhile (· ≠ '\n')

def FirstTag (cs : List Char) (k : Nat) : Prop :=
  TagAt cs k ∧ ∀ j < k, ¬ TagAt cs j

/-- What may stand behind the text of a line: nothing, or a line feed. -/
def EndsLine (after : List Char) : Prop :=
  after = [] ∨ ∃ rest, after = '\n' :: rest

/-- How an answer is cut by a match of the pattern for a version: at the start of a
line the tag, then at least one character and none that ends the line, up to where
the line ends. -/
structure VersionMatch (cs before version after : List Char) : Prop where
  chars_eq : cs = before ++ (versionTag ++ (version ++ after))
  startsLine : WholeLines before
  ne_nil : version ≠ []
  noFeed : '\n' ∉ version
  endsLine : EndsLine after

variable {cs line rest tail word version before after : List Char} {j k : Nat}

/-- A text without line feeds is the first line of itself with a line end behind. -/
theorem takeWhile_line (hline : '\n' ∉ line) (htail : EndsLine tail) :
    (line ++ tail).takeWhile (· ≠ '\n') = line := by
  have hall : ∀ c ∈ line, decide (c ≠ '\n') = true := fun c hc =>
    decide_eq_true fun hfeed => hline (hfeed ▸ hc)
  rw [List.takeWhile_append_of_pos hall]
  rcases htail with rfl | ⟨rest, rfl⟩
  · simp
  · simp

theorem exists_line (cs : List Char) :
    ∃ tail, cs = cs.takeWhile (· ≠ '\n') ++ tail ∧ EndsLine tail := by
  refine ⟨cs.dropWhile (· ≠ '\n'), List.takeWhile_append_dropWhile.symm, ?_⟩
  have hnot := List.head?_dropWhile_not (· ≠ '\n') cs
  cases hdrop : cs.dropWhile (· ≠ '\n') with
  | nil => exact Or.inl rfl
  | cons c rest =>
      rw [hdrop] at hnot
      have hfeed : c = '\n' := by simpa using hnot
      exact Or.inr ⟨rest, by rw [hfeed]⟩

/-- A word without line feeds in front of a text is in front of its first line. -/
theorem prefix_line (hword : '\n' ∉ word) (hline : '\n' ∉ line) (htail : EndsLine tail)
    (h : word <+: line ++ tail) : word <+: line := by
  obtain ⟨rest, hrest⟩ := h
  obtain ⟨tail', hsplit, -⟩ := exists_line rest
  have hall : ∀ c ∈ word, decide (c ≠ '\n') = true := fun c hc =>
    decide_eq_true fun hfeed => hword (hfeed ▸ hc)
  refine ⟨rest.takeWhile (· ≠ '\n'), ?_⟩
  rw [← takeWhile_line hline htail, ← hrest, List.takeWhile_append_of_pos hall]

theorem behindTag_ne_nil_iff :
    behindTag cs k ≠ [] ↔
      ∃ c, c ≠ '\n' ∧ (cs.drop (k + versionTag.length)).head? = some c := by
  rw [behindTag]
  cases cs.drop (k + versionTag.length) with
  | nil => simp
  | cons c rest =>
      by_cases hc : c = '\n'
      · simp [hc]
      · simp [hc]

theorem tagAt_iff :
    TagAt cs k ↔ StartsLine cs k ∧ versionTag <+: cs.drop k ∧ behindTag cs k ≠ [] := by
  rw [TagAt, behindTag_ne_nil_iff, ← List.drop_drop]
  refine and_congr_right fun _ => ?_
  constructor
  · rintro ⟨c, hc, rest, hrest⟩
    rw [← hrest]
    exact ⟨⟨[c] ++ rest, by simp⟩, c, hc, by simp⟩
  · rintro ⟨⟨rest, hrest⟩, c, hc, hhead⟩
    rw [← hrest, List.drop_left] at hhead
    obtain ⟨more, rfl⟩ := List.head?_eq_some_iff.mp hhead
    exact ⟨c, hc, more, by rw [← hrest]; simp⟩

instance (cs : List Char) (k : Nat) : Decidable (StartsLine cs k) :=
  inferInstanceAs (Decidable (k = 0 ∨ cs[k - 1]? = some '\n'))

instance (cs : List Char) (k : Nat) : Decidable (TagAt cs k) :=
  decidable_of_iff _ tagAt_iff.symm

instance (cs : List Char) (k : Nat) : Decidable (FirstTag cs k) :=
  inferInstanceAs (Decidable (TagAt cs k ∧ ∀ j < k, ¬ TagAt cs j))

theorem taggedVersion?_eq_some_iff :
    taggedVersion? line = some version ↔ version ≠ [] ∧ line = versionTag ++ version := by
  rw [taggedVersion?]
  constructor
  · intro h
    split at h
    · rename_i htagged
      obtain ⟨htag, hlong⟩ := Bool.and_eq_true_iff.mp htagged
      obtain ⟨more, rfl⟩ := List.isPrefixOf_iff_prefix.mp htag
      rw [List.drop_left, Option.some_inj] at h
      subst h
      refine ⟨?_, rfl⟩
      rintro rfl
      simp at hlong
    · cases h
  · rintro ⟨hne, rfl⟩
    have hlong : versionTag.length < (versionTag ++ version).length := by
      rw [List.length_append]
      exact Nat.lt_add_of_pos_right (List.length_pos_iff.mpr hne)
    rw [if_pos (Bool.and_eq_true_iff.mpr
      ⟨List.isPrefixOf_iff_prefix.mpr (List.prefix_append _ _), decide_eq_true hlong⟩),
      List.drop_left]

/-- The first line has a version exactly when the tag stands in front of the text. -/
theorem taggedVersion?_iff_tagAt_zero (hline : '\n' ∉ line) (htail : EndsLine tail) :
    taggedVersion? line = some version ↔
      TagAt (line ++ tail) 0 ∧ behindTag (line ++ tail) 0 = version := by
  have hbehind (more : List Char) (hmore : line = versionTag ++ more) :
      behindTag (line ++ tail) 0 = more := by
    have hnoFeed : '\n' ∉ more := fun hmem =>
      hline (hmore ▸ List.mem_append_right versionTag hmem)
    rw [behindTag, Nat.zero_add, hmore, List.append_assoc, List.drop_left]
    exact takeWhile_line hnoFeed htail
  rw [taggedVersion?_eq_some_iff, tagAt_iff, List.drop_zero]
  constructor
  · rintro ⟨hne, hversion⟩
    rw [hbehind version hversion]
    refine ⟨⟨Or.inl rfl, ?_, hne⟩, rfl⟩
    rw [hversion, List.append_assoc]
    exact List.prefix_append _ _
  · rintro ⟨⟨-, htag, hne⟩, rfl⟩
    obtain ⟨more, hmore⟩ := prefix_line (by decide) hline htail htag
    rw [hbehind more hmore.symm] at hne ⊢
    exact ⟨hne, hmore.symm⟩

theorem startsLine_inside (hline : '\n' ∉ line) (hk : k ≤ line.length)
    (h : StartsLine (line ++ tail) k) : k = 0 := by
  rcases h with rfl | hfeed
  · rfl
  · by_contra hpos
    rw [List.getElem?_append_left (by omega)] at hfeed
    exact hline (List.mem_of_getElem? hfeed)

theorem drop_behind_line (line rest : List Char) (j : Nat) :
    (line ++ '\n' :: rest).drop (line.length + 1 + j) = rest.drop j := by
  have hlength : (line ++ ['\n']).length = line.length + 1 := List.length_append
  rw [List.append_cons, ← hlength, List.drop_length_add_append]

theorem startsLine_behind_line (line rest : List Char) (j : Nat) :
    StartsLine (line ++ '\n' :: rest) (line.length + 1 + j) ↔ StartsLine rest j := by
  cases j with
  | zero =>
      refine iff_of_true (Or.inr ?_) (Or.inl rfl)
      simp
  | succ j =>
      have hne : line.length + 1 + (j + 1) ≠ 0 := by omega
      have hlast : line.length + 1 + (j + 1) - 1 = line.length + 1 + j := by omega
      have hchar : (line ++ '\n' :: rest)[line.length + 1 + j]? = rest[j]? := by
        rw [← List.head?_drop, drop_behind_line, List.head?_drop]
      simp only [StartsLine, hne, hlast, hchar, Nat.succ_ne_zero, Nat.add_sub_cancel,
        false_or]

theorem tagAt_behind_line (line rest : List Char) (j : Nat) :
    TagAt (line ++ '\n' :: rest) (line.length + 1 + j) ↔ TagAt rest j := by
  rw [TagAt, TagAt, startsLine_behind_line, drop_behind_line]

theorem behindTag_behind_line (line rest : List Char) (j : Nat) :
    behindTag (line ++ '\n' :: rest) (line.length + 1 + j) = behindTag rest j := by
  rw [behindTag, behindTag, Nat.add_assoc, drop_behind_line]

/-- Where there is no tag in front, the first one is where it is behind the first line. -/
theorem firstTag_behind_line (hline : '\n' ∉ line)
    (hnot : ¬ TagAt (line ++ '\n' :: rest) 0) :
    FirstTag (line ++ '\n' :: rest) k ↔
      ∃ j, k = line.length + 1 + j ∧ FirstTag rest j := by
  -- A tag is at the start of a line, so none is between the first line's ends.
  have hbehind {k : Nat} (h : TagAt (line ++ '\n' :: rest) k) :
      ∃ j, k = line.length + 1 + j := by
    refine Nat.exists_eq_add_of_le (Nat.not_lt.mp fun hlt => ?_)
    have hzero := startsLine_inside hline (Nat.le_of_lt_succ hlt) h.1
    exact hnot (hzero ▸ h)
  constructor
  · rintro ⟨htag, hfirst⟩
    obtain ⟨j, rfl⟩ := hbehind htag
    refine ⟨j, rfl, (tagAt_behind_line line rest j).mp htag, fun i hi h => ?_⟩
    exact hfirst _ (Nat.add_lt_add_left hi _) ((tagAt_behind_line line rest i).mpr h)
  · rintro ⟨j, rfl, htag, hfirst⟩
    refine ⟨(tagAt_behind_line line rest j).mpr htag, fun i hi h => ?_⟩
    obtain ⟨i, rfl⟩ := hbehind h
    exact hfirst i (Nat.lt_of_add_lt_add_left hi) ((tagAt_behind_line line rest i).mp h)

theorem firstTag_zero (h : TagAt cs 0) : FirstTag cs k ↔ k = 0 := by
  constructor
  · rintro ⟨-, hfirst⟩
    by_contra hk
    exact hfirst 0 (Nat.pos_of_ne_zero hk) h
  · rintro rfl
    exact ⟨h, fun j hj => absurd hj (Nat.not_lt_zero j)⟩

/-- The search by lines finds what stands behind the first tag. -/
theorem findSome?_eq_some_iff :
    (cs.splitOn '\n').findSome? taggedVersion? = some version ↔
      ∃ k, FirstTag cs k ∧ behindTag cs k = version := by
  induction hlength : cs.length using Nat.strongRecOn generalizing cs with
  | ind n ih =>
      by_cases hfeed : '\n' ∈ cs
      · obtain ⟨line, rest, rfl, hline⟩ := List.eq_append_cons_of_mem hfeed
        have hshorter : rest.length < n := by
          rw [← hlength, List.length_append, List.length_cons]
          omega
        have hfront (version : List Char) :
            taggedVersion? line = some version ↔
              TagAt (line ++ '\n' :: rest) 0 ∧ behindTag (line ++ '\n' :: rest) 0 = version :=
          taggedVersion?_iff_tagAt_zero hline (Or.inr ⟨rest, rfl⟩)
        rw [List.splitOn_append_cons_self_of_not_mem hline, List.findSome?_cons]
        cases htagged : taggedVersion? line with
        | some v =>
            obtain ⟨htag, rfl⟩ := (hfront v).mp htagged
            simp only [firstTag_zero htag, exists_eq_left, Option.some_inj]
        | none =>
            have hnot : ¬ TagAt (line ++ '\n' :: rest) 0 := fun htag => by
              rw [(hfront _).mpr ⟨htag, rfl⟩] at htagged
              cases htagged
            simp only [ih _ hshorter rfl, firstTag_behind_line hline hnot]
            constructor
            · rintro ⟨j, hfirst, rfl⟩
              exact ⟨_, ⟨j, rfl, hfirst⟩, behindTag_behind_line line rest j⟩
            · rintro ⟨_, ⟨j, rfl, hfirst⟩, rfl⟩
              exact ⟨j, hfirst, (behindTag_behind_line line rest j).symm⟩
      · have hfront : taggedVersion? cs = some version ↔
            TagAt (cs ++ []) 0 ∧ behindTag (cs ++ []) 0 = version :=
          taggedVersion?_iff_tagAt_zero hfeed (Or.inl rfl)
        rw [List.append_nil] at hfront
        rw [List.splitOn_eq_singleton hfeed, List.findSome?_singleton, hfront]
        constructor
        · rintro ⟨htag, rfl⟩
          exact ⟨0, (firstTag_zero htag).mpr rfl, rfl⟩
        · rintro ⟨k, ⟨htag, -⟩, rfl⟩
          rcases htag.1 with rfl | hbefore
          · exact ⟨htag, rfl⟩
          · exact absurd (List.mem_of_getElem? hbefore) hfeed

theorem VersionMatch.drop_eq (h : VersionMatch cs before version after) :
    cs.drop before.length = versionTag ++ (version ++ after) := by
  rw [h.chars_eq, List.drop_left]

theorem VersionMatch.behindTag_eq (h : VersionMatch cs before version after) :
    behindTag cs before.length = version := by
  rw [behindTag, ← List.drop_drop, h.drop_eq, List.drop_left]
  exact takeWhile_line h.noFeed h.endsLine

/-- A line starts behind a text of whole lines, and only there. -/
theorem startsLine_iff_wholeLines (before rest : List Char) :
    StartsLine (before ++ rest) before.length ↔ WholeLines before := by
  rcases List.eq_nil_or_concat' before with rfl | ⟨init, c, rfl⟩
  · exact iff_of_true (Or.inl rfl) (Or.inl rfl)
  · have hne : (init ++ [c]).length ≠ 0 := by simp
    have hlast : (init ++ [c] ++ rest)[(init ++ [c]).length - 1]? = some c := by simp
    rw [StartsLine, hlast, Option.some_inj, WholeLines]
    constructor
    · rintro (hzero | rfl)
      · exact absurd hzero hne
      · exact Or.inr ⟨init, rfl⟩
    · rintro (hnil | ⟨init', hfeed⟩)
      · exact absurd (congrArg List.length hnil) hne
      · exact Or.inr (List.cons.inj (List.append_inj_right' hfeed rfl)).1

/-- The pattern matches where the tag is, and takes the rest of the line. -/
theorem exists_versionMatch_iff :
    (∃ before after, VersionMatch cs before version after ∧ before.length = k) ↔
      TagAt cs k ∧ behindTag cs k = version := by
  constructor
  · rintro ⟨before, after, h, rfl⟩
    have hversion := h.behindTag_eq
    refine ⟨tagAt_iff.mpr ⟨?_, ?_, ?_⟩, hversion⟩
    · rw [h.chars_eq]
      exact (startsLine_iff_wholeLines before _).mpr h.startsLine
    · rw [h.drop_eq]
      exact List.prefix_append _ _
    · rw [hversion]
      exact h.ne_nil
  · rintro ⟨htag, rfl⟩
    obtain ⟨hstart, ⟨rest, hrest⟩, hne⟩ := tagAt_iff.mp htag
    obtain ⟨after, hafter, hends⟩ := exists_line rest
    have hbehind : behindTag cs k = rest.takeWhile (· ≠ '\n') := by
      rw [behindTag, ← List.drop_drop, ← hrest, List.drop_left]
    have hlength : (cs.take k).length = k := by
      refine List.length_take_of_le (Nat.le_of_lt (Nat.lt_of_not_le fun hpast => ?_))
      rw [List.drop_eq_nil_of_le hpast] at hrest
      cases hrest
    have hchars : cs = cs.take k ++ (versionTag ++ (behindTag cs k ++ after)) := by
      rw [hbehind, ← hafter, hrest, List.take_append_drop]
    refine ⟨cs.take k, after, ⟨hchars, ?_, hne, ?_, hends⟩, hlength⟩
    · rw [← startsLine_iff_wholeLines (cs.take k) (cs.drop k), List.take_append_drop, hlength]
      exact hstart
    · intro hfeed
      have hnot := List.mem_takeWhile_imp hfeed
      simp at hnot

/-- A tag in front of the end of whole lines is on one of them. -/
theorem TagAt.of_append (hbefore : WholeLines before) (hk : k < before.length)
    (h : TagAt (before ++ rest) k) : TagAt before k := by
  obtain ⟨hstart, c, hc, htag⟩ := h
  refine ⟨?_, c, hc, ?_⟩
  · rcases hstart with hzero | hfeed
    · exact Or.inl hzero
    · exact Or.inr (by rwa [List.getElem?_append_left (by omega)] at hfeed)
  · rw [List.drop_append_of_le_length (Nat.le_of_lt hk)] at htag
    rcases List.prefix_or_prefix_of_prefix htag (List.prefix_append _ rest) with hinside | hpast
    · exact hinside
    · -- The tag and one more character of its line do not reach over a line feed.
      rcases hbefore with rfl | ⟨init, rfl⟩
      · exact absurd hk (Nat.not_lt_zero k)
      · have hle : k ≤ init.length := by
          rw [List.length_append, List.length_singleton] at hk
          exact Nat.le_of_lt_succ hk
        rw [List.drop_append_of_le_length hle] at hpast
        have hfeed := hpast.subset (List.mem_append_right _ List.mem_cons_self)
        rcases List.mem_append.mp hfeed with hfeed | hfeed
        · exact absurd hfeed (by decide)
        · exact absurd (List.mem_singleton.mp hfeed).symm hc

theorem trimsTo_trim (s : String) : TrimsTo s.toList (Text.trim s).toList := by
  rw [Text.trim, String.toList_ofList]
  exact Text.trimsTo_trimBoth s.toList

/-- Behind the first tag the version is what is left on its line, and without any tag
it is the whole answer; both are trimmed. -/
theorem parseVersion_trims (output : String) :
    (∀ k, FirstTag output.toList k →
      TrimsTo (behindTag output.toList k) (parseVersion output).toList) ∧
    ((∀ k, ¬ TagAt output.toList k) → TrimsTo output.toList (parseVersion output).toList) := by
  constructor
  · intro k hfirst
    have hfound := findSome?_eq_some_iff.mpr ⟨k, hfirst, rfl⟩
    rw [parseVersion, hfound, String.toList_ofList]
    exact Text.trimsTo_trimBoth _
  · intro hnone
    have hfound : (output.toList.splitOn '\n').findSome? taggedVersion? = none := by
      rw [Option.eq_none_iff_forall_ne_some]
      intro version hversion
      obtain ⟨k, hfirst, -⟩ := findSome?_eq_some_iff.mp hversion
      exact hnone k hfirst.1
    rw [parseVersion, hfound]
    exact trimsTo_trim output

/-- The version is read where the pattern matches first: it is what the pattern takes
there, up to the end of that line, and nothing else in the answer matters.  Without a
match it is the whole answer.  In both cases its blank ends are trimmed.  There is no
match where a line does not start, and none where the tag ends its line. -/
theorem parseVersion_follows_pattern (output : String) :
    (∀ k, FirstTag output.toList k →
      TrimsTo (behindTag output.toList k) (parseVersion output).toList) ∧
    ((∀ k, ¬ TagAt output.toList k) → TrimsTo output.toList (parseVersion output).toList) ∧
    (∀ k version,
      (∃ before after, VersionMatch output.toList before version after ∧ before.length = k) ↔
        TagAt output.toList k ∧ behindTag output.toList k = version) ∧
    (∀ before version after, VersionMatch output.toList before version after →
      (∀ k, ¬ TagAt before k) → TrimsTo version (parseVersion output).toList) ∧
    (∀ k, 0 < k → output.toList[k - 1]? ≠ some '\n' → ¬ TagAt output.toList k) ∧
    ∀ k, EndsLine (output.toList.drop (k + versionTag.length)) → ¬ TagAt output.toList k := by
  obtain ⟨hfound, hnone⟩ := parseVersion_trims output
  refine ⟨hfound, hnone, fun k version => exists_versionMatch_iff, ?_, ?_, ?_⟩
  · intro before version after hmatch hfirst
    obtain ⟨htag, hversion⟩ := exists_versionMatch_iff.mp ⟨before, after, hmatch, rfl⟩
    rw [← hversion]
    refine hfound _ ⟨htag, fun k hk h => hfirst k ?_⟩
    rw [hmatch.chars_eq] at h
    exact h.of_append hmatch.startsLine hk
  · intro k hpos hfeed htag
    rcases htag.1 with hzero | hstart
    · omega
    · exact hfeed hstart
  · intro k hends htag
    refine (tagAt_iff.mp htag).2.2 ?_
    exact takeWhile_line List.not_mem_nil hends

/-- The tag is passed over where it is indented, alone on its line, and behind a lone
carriage return, and the first of the two left counts. -/
theorem parseVersion_follows_pattern_of_fourth_tag :
    FirstTag " version: 1\nversion:\na\rversion: 2\nversion:\t3 \r\nversion: 4".toList 34 ∧
    TrimsTo "\t3 \r".toList (parseVersion
      " version: 1\nversion:\na\rversion: 2\nversion:\t3 \r\nversion: 4").toList :=
  have hfirst : FirstTag
      " version: 1\nversion:\na\rversion: 2\nversion:\t3 \r\nversion: 4".toList 34 := by
    decide
  ⟨hfirst, (parseVersion_follows_pattern _).1 34 hfirst⟩

example : parseVersion
    " version: 1\nversion:\na\rversion: 2\nversion:\t3 \r\nversion: 4" = "3" := by
  decide

end Lintmark
