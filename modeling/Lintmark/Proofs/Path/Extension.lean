/-
The last component of a path and its extension, read off the text of the path.  Slashes
and single dots behind the last component do not count, and neither does anything in
front of it, so that a directory in front of a script leaves it a script.
-/
import Mathlib.Data.List.TakeWhile
import Lintmark.Proofs.Path.Components

namespace Lintmark.Path

variable {p q : Path} {cs name front tail : List Char}

/-- A list is cut in front of the last place where an element stands. -/
theorem exists_eq_append_last {c : Char} (h : c ∈ cs) :
    ∃ front back, cs = front ++ c :: back ∧ c ∉ back := by
  obtain ⟨back, front, hcs, hback⟩ := List.eq_append_cons_of_mem (List.mem_reverse.mpr h)
  refine ⟨front.reverse, back.reverse, ?_, fun hmem => hback (List.mem_reverse.mp hmem)⟩
  rw [← List.reverse_reverse cs, hcs]
  simp

/-- What may stand behind the last component of a path: slashes, each of them alone or with
a single dot. -/
inductive Silent : List Char → Prop where
  | nil : Silent []
  | slash {cs : List Char} (h : Silent cs) : Silent ('/' :: cs)
  | dot {cs : List Char} (h : Silent cs) : Silent ('/' :: '.' :: cs)

theorem Silent.append {more : List Char} (h : Silent cs) (hmore : Silent more) :
    Silent (cs ++ more) := by
  induction h with
  | nil => exact hmore
  | slash _ ih => exact .slash ih
  | dot _ ih => exact .dot ih

/-- A text ends with a name, which stands at its start or behind a slash, and with what may
stand behind it. -/
def EndsWith (cs name : List Char) : Prop :=
  ∃ front tail, cs = front ++ name ++ tail ∧ (front = [] ∨ front.getLast? = some '/') ∧
    Silent tail

/-- The last component of a path is an ordinary name. -/
structure LastName (p : Path) (name : List Char) : Prop where
  spelled : EndsWith p.text.toList name
  plain : '/' ∉ name
  ordinary : name ≠ [] ∧ name ≠ ['.'] ∧ name ≠ ['.', '.']

theorem EndsWith.prepend (h : EndsWith cs name) (hfront : front = [] ∨ front.getLast? = some '/') :
    EndsWith (front ++ cs) name := by
  obtain ⟨before, tail, rfl, hbefore, htail⟩ := h
  refine ⟨front ++ before, tail, by simp only [List.append_assoc], ?_, htail⟩
  rcases hbefore with rfl | hslash
  · rwa [List.append_nil]
  · exact Or.inr (by rw [List.getLast?_append, hslash]; rfl)

def namesIn (cs : List Char) : List (List Char) :=
  (cs.splitOn '/').filter fun s => s ≠ [] ∧ s ≠ ['.']

theorem namesIn_append_slash (front cs : List Char) :
    namesIn (front ++ '/' :: cs) = namesIn front ++ namesIn cs := by
  rw [namesIn, List.splitOn_append_cons_self, List.filter_append]
  rfl

theorem namesIn_of_plain (h : '/' ∉ cs) :
    namesIn cs = if cs ≠ [] ∧ cs ≠ ['.'] then [cs] else [] := by
  rw [namesIn, List.splitOn_eq_singleton h, List.filter_singleton]
  by_cases hnaming : cs ≠ [] ∧ cs ≠ ['.']
  · rw [if_pos hnaming, decide_eq_true hnaming]
    rfl
  · rw [if_neg hnaming, decide_eq_false hnaming]
    rfl

theorem namesIn_append_silent (h : Silent tail) (front : List Char) :
    namesIn (front ++ tail) = namesIn front := by
  induction h generalizing front with
  | nil => rw [List.append_nil]
  | slash _ ih =>
      have hnothing := ih []
      rw [List.nil_append] at hnothing
      rw [namesIn_append_slash, hnothing]
      exact List.append_nil _
  | dot _ ih =>
      have hnothing := ih ['.']
      rw [List.singleton_append] at hnothing
      rw [namesIn_append_slash, hnothing]
      exact List.append_nil _

theorem getLast?_namesIn_of_endsWith (h : EndsWith cs name) (hplain : '/' ∉ name)
    (hnaming : name ≠ [] ∧ name ≠ ['.']) : (namesIn cs).getLast? = some name := by
  obtain ⟨front, tail, rfl, hfront, htail⟩ := h
  have hname : namesIn name = [name] := by rw [namesIn_of_plain hplain, if_pos hnaming]
  rw [namesIn_append_silent htail]
  rcases hfront with rfl | hslash
  · rw [List.nil_append, hname]
    rfl
  · obtain ⟨before, rfl⟩ := List.getLast?_eq_some_iff.mp hslash
    rw [List.append_assoc, List.singleton_append, namesIn_append_slash, hname,
      List.getLast?_concat]

/-- The last naming piece is found by going back over what may stand behind it. -/
theorem endsWith_of_getLast?_namesIn {cs : List Char} (h : (namesIn cs).getLast? = some name) :
    EndsWith cs name ∧ '/' ∉ name ∧ name ≠ [] ∧ name ≠ ['.'] := by
  by_cases hslash : '/' ∈ cs
  · obtain ⟨front, back, hsplit, hplain⟩ := exists_eq_append_last hslash
    rw [hsplit, namesIn_append_slash, namesIn_of_plain hplain] at h
    by_cases hnaming : back ≠ [] ∧ back ≠ ['.']
    · rw [if_pos hnaming, List.getLast?_concat, Option.some_inj] at h
      subst h
      refine ⟨⟨front ++ ['/'], [], ?_, Or.inr List.getLast?_concat, .nil⟩, hplain, hnaming⟩
      rw [hsplit, List.append_nil, List.append_assoc, List.singleton_append]
    · -- Nothing behind the last slash counts, so that the name ends the text in front of it.
      rw [if_neg hnaming, List.append_nil] at h
      have hshorter : front.length < cs.length := by simp [hsplit]
      obtain ⟨⟨before, tail, hbefore, hstart, htail⟩, hname⟩ := endsWith_of_getLast?_namesIn h
      have hsilent : Silent ('/' :: back) := by
        rcases not_and_or.mp hnaming with hempty | hdot
        · rw [not_not.mp hempty]
          exact .slash .nil
        · rw [not_not.mp hdot]
          exact .dot .nil
      refine ⟨⟨before, tail ++ '/' :: back, ?_, hstart, htail.append hsilent⟩, hname⟩
      rw [hsplit, hbefore]
      simp only [List.append_assoc]
  · rw [namesIn_of_plain hslash] at h
    by_cases hnaming : cs ≠ [] ∧ cs ≠ ['.']
    · rw [if_pos hnaming, List.getLast?_singleton, Option.some_inj] at h
      subst h
      exact ⟨⟨[], [], by simp, Or.inl rfl, .nil⟩, hslash, hnaming⟩
    · rw [if_neg hnaming] at h
      cases h
termination_by cs.length

theorem fileName?_eq_some_iff : p.fileName? = some name ↔ p.LastName name := by
  have hlast : p.fileName? = some name ↔
      p.namingPieces.getLast? = some name ∧ name ≠ ['.', '.'] := by
    obtain ⟨start, hstart, hcomponents⟩ := p.exists_components_eq
    rw [fileName?, hcomponents, List.getLast?_append, List.getLast?_map]
    cases p.namingPieces.getLast? with
    | none =>
        cases hlast : start.getLast? with
        | none => simp
        | some c =>
            have hother := hstart c (List.mem_of_getLast? hlast)
            cases c with
            | name s => exact absurd rfl (hother s)
            | root => simp
            | here => simp
            | parent => simp
    | some piece =>
        by_cases hdots : piece = ['.', '.']
        · simp [componentOf, hdots, eq_comm]
        · have hpiece : componentOf piece = .name piece := if_neg hdots
          simp only [Option.map_some, Option.some_or, hpiece, Option.some_inj]
          exact ⟨fun hname => ⟨hname, hname ▸ hdots⟩, And.left⟩
  rw [hlast]
  constructor
  · rintro ⟨hnames, hdots⟩
    obtain ⟨hends, hplain, hempty, hdot⟩ := endsWith_of_getLast?_namesIn hnames
    exact ⟨hends, hplain, hempty, hdot, hdots⟩
  · rintro ⟨hends, hplain, hempty, hdot, hdots⟩
    exact ⟨getLast?_namesIn_of_endsWith hends hplain ⟨hempty, hdot⟩, hdots⟩

theorem LastName.unique {name' : List Char} (h : p.LastName name) (h' : p.LastName name') :
    name = name' :=
  Option.some.inj ((fileName?_eq_some_iff.mpr h).symm.trans (fileName?_eq_some_iff.mpr h'))

theorem takeWhile_reverse_append {extension : List Char} (hdot : '.' ∉ extension)
    (stem : List Char) :
    ((stem ++ '.' :: extension).reverse.takeWhile (· != '.')).reverse = extension := by
  have hall : ∀ c ∈ extension.reverse, (c != '.') = true := by
    intro c hc
    rw [bne_iff_ne]
    rintro rfl
    exact hdot (List.mem_reverse.mp hc)
  rw [List.reverse_append, List.reverse_cons, List.append_assoc,
    List.takeWhile_append_of_pos hall]
  simp

/-- The extension of a name stands behind its last dot, in front of which there is at least
one character. -/
theorem extensionOf?_eq_some_iff {extension : List Char} :
    extensionOf? name = some extension ↔
      '.' ∉ extension ∧ ∃ stem, stem ≠ [] ∧ name = stem ++ '.' :: extension := by
  rw [extensionOf?]
  constructor
  · intro h
    by_cases hdotted : '.' ∈ name
    · obtain ⟨stem, behind, rfl, hdot⟩ := exists_eq_append_last hdotted
      rw [takeWhile_reverse_append hdot stem] at h
      obtain ⟨hlong, hbehind⟩ := Option.ite_none_right_eq_some.mp h
      obtain rfl := Option.some.inj hbehind
      refine ⟨hdot, stem, ?_, rfl⟩
      rintro rfl
      exact Nat.lt_irrefl _ hlong
    · -- Without a dot the whole name stands behind it.
      have hall : ∀ c ∈ name.reverse, (c != '.') = true := by
        intro c hc
        rw [bne_iff_ne]
        rintro rfl
        exact hdotted (List.mem_reverse.mp hc)
      rw [List.takeWhile_eq_self_iff.mpr hall, List.reverse_reverse] at h
      have hlong := (Option.ite_none_right_eq_some.mp h).1
      omega
  · rintro ⟨hdot, stem, hstem, rfl⟩
    have hpos := List.length_pos_iff.mpr hstem
    rw [takeWhile_reverse_append hdot stem, if_pos]
    rw [List.length_append, List.length_cons]
    omega

/-- The last component of a path is a stem that is not empty, followed by an ending of
shell scripts. -/
def IsScript (p : Path) : Prop :=
  ∃ name stem ending, p.LastName name ∧ stem ≠ [] ∧
    (ending = ".sh".toList ∨ ending = ".bash".toList) ∧ name = stem ++ ending

theorem isShellScript_iff : p.isShellScript ↔ p.IsScript := by
  have hscripts : ∀ e : List Char, scriptExtensions.contains e ↔
      '.' :: e = ".sh".toList ∨ '.' :: e = ".bash".toList := by
    intro e
    simp [scriptExtensions]
  have hextension : p.isShellScript ↔
      ∃ e, p.extension? = some e ∧ scriptExtensions.contains e := by
    rw [isShellScript]
    cases p.extension? with
    | none => simp
    | some e => simp
  rw [hextension, extension?]
  simp only [Option.bind_eq_some_iff, fileName?_eq_some_iff, extensionOf?_eq_some_iff,
    hscripts]
  constructor
  · rintro ⟨e, ⟨name, hname, -, stem, hstem, rfl⟩, hending⟩
    exact ⟨_, stem, _, hname, hstem, hending, rfl⟩
  · rintro ⟨name, stem, ending, hname, hstem, hending, rfl⟩
    rcases hending with rfl | rfl
    · exact ⟨['s', 'h'], ⟨_, hname, by decide, stem, hstem, rfl⟩, Or.inl rfl⟩
    · exact ⟨['b', 'a', 's', 'h'], ⟨_, hname, by decide, stem, hstem, rfl⟩, Or.inr rfl⟩

/-- A directory in front of a path leaves its last component as it is. -/
theorem LastName.join (h : q.LastName name) (p : Path) : (p.join q).LastName name := by
  by_cases habsolute : q.isAbsolute
  · rwa [Path.join, if_pos habsolute]
  · have hspelled : ∃ front : List Char, (front = [] ∨ front.getLast? = some '/') ∧
        (p.join q).text.toList = front ++ q.text.toList := by
      rw [Path.join, if_neg habsolute]
      cases hlast : p.text.toList.getLast? with
      | none => exact ⟨_, Or.inl (List.getLast?_eq_none_iff.mp hlast), String.toList_append⟩
      | some c =>
          by_cases hslash : c = '/'
          · subst hslash
            exact ⟨_, Or.inr hlast, String.toList_append⟩
          · refine ⟨p.text.toList ++ ['/'], Or.inr List.getLast?_concat, ?_⟩
            split
            · rename_i hnone
              cases hnone
            · rename_i hsome
              cases hsome
              exact absurd rfl hslash
            · rw [String.toList_append, String.toList_append]
              rfl
    obtain ⟨front, hfront, htext⟩ := hspelled
    refine ⟨?_, h.plain, h.ordinary⟩
    rw [htext]
    exact h.spelled.prepend hfront

theorem isScript_iff_of_lastName (h : p.LastName name) :
    p.IsScript ↔ ∃ stem ending, stem ≠ [] ∧
      (ending = ".sh".toList ∨ ending = ".bash".toList) ∧ name = stem ++ ending := by
  constructor
  · rintro ⟨name', stem, ending, hname', hstem, hending, rfl⟩
    exact ⟨stem, ending, hstem, hending, h.unique hname'⟩
  · rintro ⟨stem, ending, hstem, hending, rfl⟩
    exact ⟨_, stem, ending, h, hstem, hending, rfl⟩

end Lintmark.Path
