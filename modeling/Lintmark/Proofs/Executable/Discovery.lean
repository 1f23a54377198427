/-
Finding executables.  A directory adds its path to those found before exactly when
that path is executable and none of them is the same.  So what is found are the
first spellings of all executable paths, in the order of the directories.
-/
import Mathlib.Data.List.Induction
import Lintmark.Executable
import Lintmark.Proofs.Path.Components

namespace Lintmark

namespace Executable

theorem firstSpellings_append (seen xs ys : List Path) :
    firstSpellings seen (xs ++ ys) =
      firstSpellings seen xs ++ firstSpellings (seen ++ firstSpellings seen xs) ys := by
  induction xs generalizing seen with
  | nil => simp [firstSpellings]
  | cons p xs ih =>
      rw [List.cons_append, firstSpellings, firstSpellings]
      split
      · exact ih seen
      · rw [ih, List.cons_append, List.append_cons seen p (firstSpellings (seen ++ [p]) xs)]

/-- One more path is kept unless it is the same as one that was kept. -/
theorem firstSpellings_concat (xs : List Path) (p : Path) :
    firstSpellings [] (xs ++ [p]) =
      firstSpellings [] xs ++ if (firstSpellings [] xs).any p.same then [] else [p] := by
  rw [firstSpellings_append, List.nil_append, firstSpellings, firstSpellings,
    firstSpellings]

theorem firstSpellings_sublist (seen xs : List Path) :
    (firstSpellings seen xs).Sublist xs := by
  induction xs generalizing seen with
  | nil => exact List.Sublist.refl []
  | cons p xs ih =>
      rw [firstSpellings]
      split
      · exact (ih seen).cons p
      · exact (ih _).cons_cons p

/-- A path is the same as one that is kept when it is the same as any of them. -/
theorem any_firstSpellings (xs : List Path) (p : Path) :
    (firstSpellings [] xs).any p.same = xs.any p.same := by
  induction xs using List.reverseRecOn with
  | nil => rfl
  | append_singleton xs q ih =>
      rw [firstSpellings_concat, List.any_append, List.any_append, ih]
      split
      · -- What is the same as `q` is the same as the one kept in its place.
        rename_i hseen
        obtain ⟨kept, hkept, hsame⟩ := List.any_eq_true.mp hseen
        have hkeptIn : kept ∈ xs := (firstSpellings_sublist [] xs).subset hkept
        rw [Bool.eq_iff_iff, List.any_nil, Bool.or_false, Bool.or_eq_true]
        constructor
        · exact Or.inl
        · rintro (hin | hq)
          · exact hin
          · have hpq : p.same q := by simpa using hq
            refine List.any_eq_true.mpr ⟨kept, hkeptIn, Path.same_iff.mpr ?_⟩
            rw [Path.same_iff.mp hpq, Path.same_iff.mp hsame]
      · rfl

theorem pairwise_firstSpellings (xs : List Path) :
    (firstSpellings [] xs).Pairwise fun p q => ¬ p.same q := by
  induction xs using List.reverseRecOn with
  | nil => exact List.Pairwise.nil
  | append_singleton xs q ih =>
      rw [firstSpellings_concat, List.pairwise_append]
      split
      · exact ⟨ih, List.Pairwise.nil, fun p _ r hr => absurd hr List.not_mem_nil⟩
      · rename_i hnew
        refine ⟨ih, List.pairwise_singleton _ _, ?_⟩
        intro p hp r hr hsame
        obtain rfl := List.mem_singleton.mp hr
        exact hnew (List.any_eq_true.mpr ⟨p, hp, Path.same_iff.mpr (Path.same_iff.mp hsame).symm⟩)

/-- The paths that no earlier one is the same as. -/
def firstOnes (xs : List Path) : List Path :=
  (xs.zipIdx.filter fun x => !(xs.take x.2).any x.1.same).map Prod.fst

theorem firstOnes_concat (xs : List Path) (p : Path) :
    firstOnes (xs ++ [p]) = firstOnes xs ++ if xs.any p.same then [] else [p] := by
  have hbefore : (xs.zipIdx.filter fun x => !((xs ++ [p]).take x.2).any x.1.same) =
      xs.zipIdx.filter fun x => !(xs.take x.2).any x.1.same := by
    apply List.filter_congr
    intro x hx
    have hlt : x.2 < xs.length := by
      have hindex := List.snd_lt_of_mem_zipIdx hx
      omega
    rw [List.take_append_of_le_length (Nat.le_of_lt hlt)]
  have hlast : [p].zipIdx (0 + xs.length) = [(p, xs.length)] := by
    rw [Nat.zero_add, List.zipIdx_singleton]
  rw [firstOnes, List.zipIdx_append, List.filter_append, List.map_append, hbefore, firstOnes,
    hlast, List.filter_singleton, List.take_left]
  cases xs.any p.same with
  | true => rfl
  | false => rfl

theorem firstSpellings_eq_firstOnes (xs : List Path) :
    firstSpellings [] xs = firstOnes xs := by
  induction xs using List.reverseRecOn with
  | nil => rfl
  | append_singleton xs p ih =>
      rw [firstSpellings_concat, firstOnes_concat, any_firstSpellings, ih]

section

variable (executable : Path → Bool) (name : String) (dirs : List Path)

theorem fileName_eq : fileName name = name := by
  rw [fileName, nameEnding]
  split
  · rfl
  · exact String.append_empty

theorem candidates_append (more : List Path) :
    candidates name (dirs ++ more) = candidates name dirs ++ candidates name more := by
  rw [candidates, candidates, candidates, List.filter_append, List.map_append]

theorem mem_candidates {p : Path} :
    p ∈ candidates name dirs ↔ ∃ d ∈ dirs, d.isAbsolute ∧ d.join ⟨name⟩ = p := by
  rw [candidates, fileName_eq]
  simp only [List.mem_map, List.mem_filter, and_assoc]

/-- A directory adds its path to those found before when the directory is absolute,
the path is executable and none of those found is the same. -/
theorem among_concat (d : Path) :
    among executable name (dirs ++ [d]) =
      among executable name dirs ++
        if d.isAbsolute ∧ executable (d.join ⟨name⟩) ∧
            ¬ (among executable name dirs).any (d.join ⟨name⟩).same
        then [d.join ⟨name⟩] else [] := by
  have hcandidates : (candidates name [d]).filter executable =
      if d.isAbsolute ∧ executable (d.join ⟨name⟩) then [d.join ⟨name⟩] else [] := by
    rw [candidates, fileName_eq]
    cases hd : d.isAbsolute <;> cases he : executable (d.join ⟨name⟩) <;> simp [hd, he]
  rw [among, candidates_append, List.filter_append, hcandidates, among]
  by_cases hcandidate : d.isAbsolute ∧ executable (d.join ⟨name⟩)
  · rw [if_pos hcandidate, firstSpellings_concat]
    cases hseen : (firstSpellings [] ((candidates name dirs).filter executable)).any
        (d.join ⟨name⟩).same with
    | true => simp
    | false => simp [hcandidate]
  · rw [if_neg hcandidate, List.append_nil, if_neg fun h => hcandidate ⟨h.1, h.2.1⟩,
      List.append_nil]

theorem among_prefix_append (more : List Path) :
    among executable name dirs <+: among executable name (dirs ++ more) := by
  induction more using List.reverseRecOn with
  | nil => exact ⟨[], by rw [List.append_nil, List.append_nil]⟩
  | append_singleton more d ih =>
      rw [← List.append_assoc, among_concat]
      exact ih.trans (List.prefix_append _ _)

theorem mem_among {p : Path} (hp : p ∈ among executable name dirs) :
    p.isAbsolute ∧ executable p := by
  have hcandidate : p ∈ (candidates name dirs).filter executable :=
    (firstSpellings_sublist [] _).subset hp
  obtain ⟨hin, hexecutable⟩ := List.mem_filter.mp hcandidate
  obtain ⟨d, -, hd, rfl⟩ := (mem_candidates name dirs).mp hin
  exact ⟨Path.isAbsolute_join hd _, hexecutable⟩

theorem exists_same_mem_among {d : Path} (hd : d ∈ dirs) (habsolute : d.isAbsolute)
    (hexecutable : executable (d.join ⟨name⟩)) :
    ∃ q ∈ among executable name dirs, (d.join ⟨name⟩).same q := by
  have hcandidate : d.join ⟨name⟩ ∈ (candidates name dirs).filter executable :=
    List.mem_filter.mpr ⟨(mem_candidates name dirs).mpr ⟨d, hd, habsolute, rfl⟩, hexecutable⟩
  have hseen : ((candidates name dirs).filter executable).any (d.join ⟨name⟩).same :=
    List.any_eq_true.mpr ⟨_, hcandidate, Path.same_iff.mpr rfl⟩
  rw [← any_firstSpellings] at hseen
  exact List.any_eq_true.mp hseen

end

theorem executeBit_iff (mode : Nat) : FileTree.executeBit mode ↔ mode &&& 0o111 ≠ 0 := by
  have hlow : mode &&& 0o111 = mode % 128 &&& 0o111 := by
    have hmask : 0o111 = (2 ^ 7 - 1) &&& 0o111 := rfl
    rw [hmask, ← Nat.and_assoc, Nat.and_two_pow_sub_one_eq_mod, ← hmask]
  have hbits : FileTree.executeBit mode = FileTree.executeBit (mode % 128) := by
    have hothers : mode % 128 % 2 = mode % 2 := by omega
    have hgroup : mode % 128 / 8 % 2 = mode / 8 % 2 := by omega
    have howner : mode % 128 / 64 % 2 = mode / 64 % 2 := by omega
    rw [FileTree.executeBit, FileTree.executeBit, hothers, hgroup, howner]
  have hsmall : ∀ m < 128, FileTree.executeBit m ↔ m &&& 0o111 ≠ 0 := by decide
  rw [hlow, hbits]
  exact hsmall _ (Nat.mod_lt _ (by decide))

theorem isExecutable_iff (t : FileTree) (dir : Location) (p : Path) :
    t.isExecutable dir p ↔
      ∃ location mode content,
        t.resolve dir p = .ok (location, .file mode content) ∧ mode &&& 0o111 ≠ 0 := by
  rw [FileTree.isExecutable]
  constructor
  · intro h
    split at h
    · rename_i location mode content hresolve
      exact ⟨location, mode, content, hresolve, (executeBit_iff mode).mp h⟩
    · exact absurd h Bool.false_ne_true
  · rintro ⟨location, mode, content, hresolve, hmode⟩
    rw [hresolve]
    exact (executeBit_iff mode).mpr hmode

/-- What is found for a name in some directories, whatever the state of the files:
the first spelling of each executable path, in the order of the absolute directories.
The paths found are absolute and executable, no two are the same, every executable
path is the same as one of them, and more directories only add paths at the end. -/
theorem inDirs_discovers (name : String) (dirs more : List Path) :
    (∀ executable : Path → Bool,
      among executable name dirs =
        firstOnes (((dirs.filter Path.isAbsolute).map (·.join ⟨name⟩)).filter executable) ∧
      (∀ p ∈ among executable name dirs, p.isAbsolute ∧ executable p) ∧
      (among executable name dirs).Pairwise (fun p q => ¬ p.same q) ∧
      (∀ d ∈ dirs, d.isAbsolute → executable (d.join ⟨name⟩) →
        ∃ q ∈ among executable name dirs, (d.join ⟨name⟩).same q) ∧
      among executable name dirs <+: among executable name (dirs ++ more)) ∧
    (∀ p q : Path, p.isAbsolute → q.isAbsolute →
      (p.same q ↔ p.namingPieces = q.namingPieces)) ∧
    (∀ (t : FileTree) (dir : Location),
      inDirs t dir name dirs = among (t.isExecutable dir) name dirs ∧
      ∀ p, t.isExecutable dir p ↔
        ∃ location mode content,
          t.resolve dir p = .ok (location, .file mode content) ∧ mode &&& 0o111 ≠ 0) := by
  refine ⟨fun executable => ⟨?_, ?_, ?_, ?_, ?_⟩, ?_, ?_⟩
  · rw [among, firstSpellings_eq_firstOnes, candidates, fileName_eq]
  · intro p hp
    exact mem_among executable name dirs hp
  · exact pairwise_firstSpellings _
  · intro d hd habsolute hexecutable
    exact exists_same_mem_among executable name dirs hd habsolute hexecutable
  · exact among_prefix_append executable name dirs more
  · intro p q hp hq
    exact Path.same_iff_namingPieces hp hq
  · intro t dir
    exact ⟨rfl, isExecutable_iff t dir⟩

/-- The second directory is relative and the third one is the first one again. -/
example :
    inDirs ⟨[([['b'], ['x']], .file 0o755 []), ([['b']], .directory),
        ([['c'], ['x']], .file 0o644 []), ([['c']], .directory)]⟩ []
      "x" [⟨"/b"⟩, ⟨"b"⟩, ⟨"//b/."⟩, ⟨"/c"⟩] = [⟨"/b/x"⟩] := by
  decide +kernel

end Executable

end Lintmark
