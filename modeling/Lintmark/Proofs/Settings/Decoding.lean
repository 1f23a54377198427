/-
Decoding settings.  An object is decoded by the members whose names are known, in any
order and none twice: each of them needs a value of its type, the fields that are left
out have their defaults, and all other members are skipped.
-/
import Lintmark.Proofs.Json.Printer
import Lintmark.Proofs.Settings.Fields
import Lintmark.Proofs.Settings.TypedValues
import Lintmark.Settings.Decode

namespace Lintmark.Settings

open Json (Read Space Stops Value ValueForm ValueText)

variable {s s' : Settings} {f : SettingsField} {seen : List SettingsField}
  {ms : List (SettingsField × List Char)} {m : String × List Char}
  {raws : List (String × List Char)} {name : String} {cs w rest rest' t u : List Char}
  {fuel : Nat}

/-- Reading a field sets it to the value that is written there, which has to be of its
type. -/
theorem readField_eq_ok_iff (ht : Space t) (h : ValueForm w) (hrest : Stops rest) :
    s.readField f (t ++ w ++ rest) = .ok (s', rest') ↔
      ∃ v, f.Takes v ∧ ValueText v w ∧ s.put f v = s' ∧ rest' = rest := by
  cases f
  all_goals
    simp only [readField, Read.andThen_pure_eq_ok, Json.expectString_eq_ok_iff ht h,
      Json.expectBool_eq_ok_iff ht h, Json.expectNatural_eq_ok_iff ht h hrest]
    constructor
    · rintro ⟨a, ⟨htext, hend⟩, hput⟩
      exact ⟨_, ⟨a, rfl⟩, htext, hput, hend⟩
    · rintro ⟨_, ⟨a, rfl⟩, htext, hput, hend⟩
      exact ⟨a, ⟨htext, hend⟩, hput⟩

/-- Read a member behind the quote of its name, and those behind it. -/
def readMember (fuel : Nat) (seen : List SettingsField) (s : Settings) (cs : List Char) :
    Read Settings :=
  (Json.string cs).andThen fun name rest =>
    let field := SettingsField.ofName? name
    if field.any (· ∈ seen) then Json.failBehind (.duplicateField name) (behindDuplicate rest)
    else
      match Json.skipSpace rest with
      | [] => Json.failOn .eofInObject []
      | ':' :: rest =>
        match field with
        | some f =>
          (s.readField f rest).andThen fun s rest => readMembers fuel false (f :: seen) s rest
        | none =>
          (Json.skipValue rest).andThen fun _ rest => readMembers fuel false seen s rest
      | rest => Json.failOn .colonExpected rest

theorem readMembers_close (ht : Space t) (fuel : Nat) (first : Bool) (rest : List Char) :
    readMembers (fuel + 1) first seen s (t ++ '}' :: rest) = .ok (s, rest) := by
  have hclose : ¬ Json.isSpace '}' := by decide
  simp only [readMembers, Json.skipSpace_append ht, Json.skipSpace_cons hclose]

theorem readMembers_first (h : Json.skipSpace cs = '"' :: rest) :
    readMembers (fuel + 1) true seen s cs = readMember fuel seen s rest := by
  simp only [readMembers, h, if_true]
  rfl

theorem readMembers_comma (ht : Space t) (h : Json.skipSpace cs = '"' :: rest) :
    readMembers (fuel + 1) false seen s (t ++ ',' :: cs) = readMember fuel seen s rest := by
  have hcomma : ¬ Json.isSpace ',' := by decide
  simp [readMembers, Json.skipSpace_append ht, Json.skipSpace_cons hcomma, h]
  rfl

/-- A member is set or skipped by its name and the text of its value, and then the members
behind it are read. -/
theorem readMember_eq_ok_iff (hname : Json.string cs = .ok (name, t ++ ':' :: (u ++ w ++ rest)))
    (ht : Space t) (hu : Space u) (h : ValueForm w) (hrest : Stops rest) {x : Settings × List Char}
    (hbehind : ∀ seen s, readMembers fuel false seen s rest = .ok x ↔
      SetBy s seen ms x.1 ∧ x.2 = rest') :
    readMember fuel seen s cs = .ok x ↔
      SetBy s seen (known [(name, w)] ++ ms) x.1 ∧ x.2 = rest' := by
  have hcolon : ¬ Json.isSpace ':' := by decide
  rw [readMember, hname, Read.andThen_ok]
  simp only [Json.skipSpace_append ht, Json.skipSpace_cons hcolon]
  cases hfield : SettingsField.ofName? name with
  | none =>
      have hknown : known [(name, w)] = [] := by rw [known_singleton, hfield]; rfl
      simp only [Option.any_none, Bool.false_eq_true, if_false]
      rw [h.skipValue hu hrest, Read.andThen_ok, hknown, List.nil_append]
      exact hbehind seen s
  | some f =>
      have hknown : known [(name, w)] = [(f, w)] := by rw [known_singleton, hfield]; rfl
      rw [hknown, List.singleton_append, SetBy.cons_iff]
      by_cases hseen : f ∈ seen
      · simp only [Option.any_some, hseen, decide_true, if_true]
        apply iff_of_false Json.failBehind_ne_ok
        rintro ⟨⟨hfresh, -⟩, -⟩
        exact hfresh trivial
      · simp only [Option.any_some, hseen, decide_false, Bool.false_eq_true, if_false,
          Read.andThen_eq_ok, readField_eq_ok_iff hu h hrest]
        constructor
        · rintro ⟨_, _, ⟨v, htakes, htext, rfl, rfl⟩, hread⟩
          obtain ⟨hset, hend⟩ := (hbehind _ _).mp hread
          exact ⟨⟨not_false, v, htakes, htext, hset⟩, hend⟩
        · rintro ⟨⟨-, v, htakes, htext, hset⟩, hend⟩
          exact ⟨_, _, ⟨v, htakes, htext, rfl, rfl⟩, (hbehind _ _).mpr ⟨hset, hend⟩⟩

/-- The parts that are read of the text of a member. -/
theorem namedForm_parts (h : Json.NamedForm (name, w) cs) (rest : List Char) :
    ∃ behind t u u', Json.skipSpace (cs ++ rest) = '"' :: behind ∧
      Json.string behind = .ok (name, t ++ ':' :: (u ++ w ++ (u' ++ rest))) ∧
      Space t ∧ Space u ∧ Space u' ∧ ValueForm w ∧ 0 < cs.length := by
  cases h with
  | @named _ _ s k t _ hs hk ht hv =>
      cases hv with
      | @padded u _ u' hu hw hu' =>
          obtain ⟨behind, hbehind, hname⟩ := hk.complete (t ++ ':' :: (u ++ w ++ u' ++ rest))
          refine ⟨behind, t, u, u', Json.skipSpace_named hs hbehind, ?_, ht, hu, hu', hw, ?_⟩
          · rwa [List.append_assoc (u ++ w)] at hname
          · rw [List.length_append, List.length_cons]
            omega

/-- Members that stand in front of a closing brace are all read. -/
theorem readMember_separated (h : Json.Separated Json.NamedForm (m :: raws) w)
    (hfuel : w.length ≤ fuel) (rest : List Char) :
    ∃ cs, Json.skipSpace (w ++ '}' :: rest) = '"' :: cs ∧
      ∀ seen s x, readMember fuel seen s cs = .ok x ↔
        SetBy s seen (known (m :: raws)) x.1 ∧ x.2 = rest := by
  induction raws generalizing m w fuel with
  | nil =>
      cases h with
      | one h =>
          obtain ⟨name, w'⟩ := m
          obtain ⟨cs, t, u, u', hskip, hname, ht, hu, hu', hw, hpos⟩ :=
            namedForm_parts h ('}' :: rest)
          have hstops := (Json.stops_stop (Or.inr rfl) (Or.inr rfl) rest).space_append hu'
          obtain ⟨fuel, rfl⟩ : ∃ k, fuel = k + 1 := ⟨fuel - 1, by omega⟩
          refine ⟨cs, hskip, fun seen s x => ?_⟩
          rw [known_cons]
          apply readMember_eq_ok_iff hname ht hu hw hstops
          intro seen s
          rw [readMembers_close hu', Except.ok.injEq, Prod.eq_iff_fst_eq_snd_eq]
          exact and_congr SetBy.nil_iff.symm eq_comm
  | cons m' raws ih =>
      cases h with
      | @more _ _ _ w ws h hs =>
          obtain ⟨name, w'⟩ := m
          obtain ⟨cs, t, u, u', hskip, hname, ht, hu, hu', hw, hpos⟩ :=
            namedForm_parts h (',' :: (ws ++ '}' :: rest))
          have hstops :=
            (Json.stops_stop (Or.inr rfl) (Or.inl rfl) (ws ++ '}' :: rest)).space_append hu'
          rw [List.length_append, List.length_cons] at hfuel
          obtain ⟨fuel, rfl⟩ : ∃ k, fuel = k + 1 := ⟨fuel - 1, by omega⟩
          obtain ⟨cs', hskip', hread⟩ := ih hs (by omega : ws.length ≤ fuel)
          have htext : w ++ ',' :: ws ++ '}' :: rest = w ++ ',' :: (ws ++ '}' :: rest) := by simp
          rw [htext]
          refine ⟨cs, hskip, fun seen s x => ?_⟩
          rw [known_cons]
          apply readMember_eq_ok_iff hname ht hu hw hstops
          intro seen s
          rw [readMembers_comma hu' hskip']
          exact hread seen s x

theorem readMembers_eq_ok_iff {x : Settings × List Char}
    (h : Json.Separated Json.NamedForm raws w) (hfuel : w.length < fuel) (rest : List Char) :
    readMembers fuel true seen s (w ++ '}' :: rest) = .ok x ↔
      SetBy s seen (known raws) x.1 ∧ x.2 = rest := by
  obtain ⟨fuel, rfl⟩ : ∃ k, fuel = k + 1 := ⟨fuel - 1, by omega⟩
  cases raws with
  | nil =>
      cases h with
      | none hs =>
          rw [readMembers_close hs, Except.ok.injEq, Prod.eq_iff_fst_eq_snd_eq]
          exact and_congr SetBy.nil_iff.symm eq_comm
  | cons m raws =>
      obtain ⟨cs, hskip, hread⟩ := readMember_separated h (Nat.le_of_lt_succ hfuel) rest
      rw [readMembers_first hskip]
      exact hread seen s x

theorem parse_eq_ok_iff {text : String} : parse text = .ok s ↔ ofJson text = .ok s := by
  rw [parse]
  split
  · rename_i hread
    rw [hread, Except.ok.injEq, Except.ok.injEq]
  · rename_i hread
    rw [hread]
    exact iff_of_false nofun nofun

/-- An object is decoded by its known members. -/
theorem parse_objectForm_iff {text : String} (h : Json.ObjectForm raws text.toList) :
    parse text = .ok s ↔ SetBy {} [] (known raws) s := by
  rw [parse_eq_ok_iff, ofJson]
  generalize text.toList = cs at h
  cases h with
  | @braces u w u' hu hw hu' =>
      have hbrace : ¬ Json.isSpace '{' := by decide
      have hskip : Json.skipSpace (u ++ '{' :: w ++ '}' :: u') = '{' :: (w ++ '}' :: u') := by
        rw [List.append_assoc, Json.skipSpace_append hu, List.cons_append,
          Json.skipSpace_cons hbrace]
      have hfuel : w.length < (w ++ '}' :: u').length + 1 := by
        rw [List.length_append]
        omega
      have hread (x : Settings × List Char) :
          read (u ++ '{' :: w ++ '}' :: u') = .ok x ↔
            SetBy {} [] (known raws) x.1 ∧ x.2 = u' := by
        rw [read, hskip]
        exact readMembers_eq_ok_iff hw hfuel u'
      constructor
      · intro hok
        split at hok
        · cases hok
        · rename_i s' rest heq
          obtain ⟨hset, rfl⟩ := (hread _).mp heq
          rw [Json.atEnd_eq_ok_iff.mpr hu'] at hok
          cases hok
          exact hset
      · intro hset
        rw [(hread (s, u')).mpr ⟨hset, rfl⟩]
        dsimp only
        rw [Json.atEnd_eq_ok_iff.mpr hu']
        rfl

section

variable {text : String}

/-- Each known name at most once, an object is decoded exactly when all its known members
have values of their types. -/
theorem exists_parse_iff (h : Json.ObjectForm raws text.toList)
    (honce : ∀ f : SettingsField, (raws.map Prod.fst).count f.name ≤ 1) :
    (∃ s, parse text = .ok s) ↔
      ∀ (f : SettingsField) (w : List Char), (f.name, w) ∈ raws →
        ∃ v, f.Takes v ∧ ValueText v w := by
  simp only [parse_objectForm_iff h]
  constructor
  · rintro ⟨s, hset⟩ f w hw
    exact ⟨s.value f, takes_value s f, hset.written f w (mem_known.mpr hw)⟩
  · intro htyped
    have hseen : ∀ f ∈ ([] : List SettingsField), f ∉ (known raws).map Prod.fst := nofun
    have hknown : ∀ f w, (f, w) ∈ known raws → ∃ v, f.Takes v ∧ ValueText v w :=
      fun f w hw => htyped f w (mem_known.mp hw)
    exact exists_setBy (nodup_known_iff.mpr honce) hseen hknown {}

theorem exists_error_of_twice (h : Json.ObjectForm raws text.toList)
    (htwice : 2 ≤ (raws.map Prod.fst).count f.name) : ∃ e, parse text = .error e := by
  cases hs : parse text with
  | error e => exact ⟨e, rfl⟩
  | ok s =>
      have hset := (parse_objectForm_iff h).mp hs
      have honce := nodup_known_iff.mp hset.once f
      omega

/-- Neither the order of known members nor the other members matter. -/
theorem parse_iff_of_perm {text' : String} {raws' : List (String × List Char)}
    (h : Json.ObjectForm raws text.toList) (h' : Json.ObjectForm raws' text'.toList)
    (hperm : (known raws').Perm (known raws)) (s : Settings) :
    parse text' = .ok s ↔ parse text = .ok s := by
  rw [parse_objectForm_iff h, parse_objectForm_iff h']
  exact ⟨fun hset => hset.perm hperm, fun hset => hset.perm hperm.symm⟩

end

def members (s : Settings) : List (String × Value) :=
  SettingsField.all.map fun f => (f.name, s.value f)

def tree (s : Settings) : Json.Tree :=
  .object [
    (SettingsField.executable.name, .string s.executable),
    (SettingsField.demote.name, .bool s.demote),
    (SettingsField.wholeLine.name, .bool s.wholeLine),
    (SettingsField.enabled.name, .bool s.enabled),
    (SettingsField.timeoutSecs.name, .natural s.timeoutSecs)]

theorem tree_value (s : Settings) : s.tree.value = .object s.members := rfl

theorem tree_fits (h : s.timeoutSecs < 2 ^ 64) : s.tree.Fits :=
  ⟨trivial, trivial, trivial, trivial, h, trivial⟩

theorem exists_sameMember {ms : List (String × Value)} {raws : List (String × List Char)}
    (h : List.Forall₂ Json.SameMember ms raws) {raw : String × List Char} (hraw : raw ∈ raws) :
    ∃ m ∈ ms, Json.SameMember m raw := by
  induction h with
  | nil => exact absurd hraw List.not_mem_nil
  | cons hm _ ih =>
      rcases List.mem_cons.mp hraw with rfl | hraw
      · exact ⟨_, List.mem_cons_self, hm⟩
      · obtain ⟨m, hmem, hsame⟩ := ih hraw
        exact ⟨m, List.mem_cons_of_mem _ hmem, hsame⟩

theorem map_fst_sameMember {ms : List (String × Value)} {raws : List (String × List Char)}
    (h : List.Forall₂ Json.SameMember ms raws) : raws.map Prod.fst = ms.map Prod.fst := by
  induction h with
  | nil => rfl
  | cons hm _ ih => rw [List.map_cons, List.map_cons, ih, hm.1]

/-- Settings that are written as an object are decoded again, with any space around its
tokens and with its strings escaped in any way. -/
theorem parse_members {text : String} (h : Json.PaddedText (.object s.members) text.toList) :
    parse text = .ok s := by
  obtain ⟨raws, hraws, hsame⟩ := h.objectForm
  have hcount (f : SettingsField) : (raws.map Prod.fst).count f.name = 1 := by
    have hnames : s.members.map Prod.fst = SettingsField.all.map SettingsField.name := rfl
    rw [map_fst_sameMember hsame, hnames]
    cases f <;> decide
  apply (parse_objectForm_iff hraws).mpr
  refine ⟨nodup_known_iff.mpr fun f => Nat.le_of_eq (hcount f), nofun, ?_, ?_⟩
  · intro f w hw
    obtain ⟨m, hm, hname, htext⟩ := exists_sameMember hsame (mem_known.mp hw)
    obtain ⟨g, -, rfl⟩ := List.mem_map.mp hm
    rwa [SettingsField.name_injective hname] at htext
  · intro f hf
    rw [mem_map_known, ← List.count_eq_zero, hcount f] at hf
    exact absurd hf Nat.one_ne_zero

/-- Decoding an object depends on its known members only.  If each known name comes at
most once, the object is decoded exactly when each known member has a value of its type.
Then the fields have the values of their members, and those that are left out have their
defaults.  A known name that comes twice is an error.  Neither the order of known members
nor the other ones matter, which may have any text that looks like a value.  All objects
that are read as JSON are meant, and settings written as one are decoded again. -/
theorem parse_known_members :
    (∀ (text : String) (raws : List (String × List Char)),
      Json.ObjectForm raws text.toList →
      ((∀ f : SettingsField, (raws.map Prod.fst).count f.name ≤ 1) →
        ((∃ s, parse text = .ok s) ↔
          ∀ (f : SettingsField) (w : List Char), (f.name, w) ∈ raws →
            ∃ v, f.Takes v ∧ ValueText v w) ∧
        ∀ s, parse text = .ok s → ∀ f : SettingsField,
          (∀ w, (f.name, w) ∈ raws → ValueText (s.value f) w) ∧
          (f.name ∉ raws.map Prod.fst → s.value f = ({} : Settings).value f)) ∧
      ((∃ f : SettingsField, 2 ≤ (raws.map Prod.fst).count f.name) →
        ∃ e, parse text = .error e) ∧
      ∀ (text' : String) (raws' : List (String × List Char)),
        Json.ObjectForm raws' text'.toList → (known raws').Perm (known raws) →
        ∀ s, parse text' = .ok s ↔ parse text = .ok s) ∧
    (∀ (text : String) (ms : List (String × Value)) (rest : List Char),
      Json.value text.toList = .ok (.object ms, rest) → Json.atEnd rest = .ok () →
      ∃ raws, Json.ObjectForm raws text.toList ∧ List.Forall₂ Json.SameMember ms raws) ∧
    (∀ (s : Settings) (text : String),
      Json.PaddedText (.object s.members) text.toList → parse text = .ok s) ∧
    (∀ s : Settings, s.timeoutSecs < 2 ^ 64 → parse s.tree.text = .ok s) := by
  refine ⟨?_, ?_, ?_, ?_⟩
  · intro text raws h
    refine ⟨fun honce => ⟨exists_parse_iff h honce, ?_⟩, ?_, ?_⟩
    · intro s hs f
      have hset := (parse_objectForm_iff h).mp hs
      exact ⟨fun w hw => hset.written f w (mem_known.mpr hw),
        fun hf => hset.kept f (mt mem_map_known.mp hf)⟩
    · rintro ⟨f, htwice⟩
      exact exists_error_of_twice h htwice
    · intro text' raws' h' hperm
      exact parse_iff_of_perm h h' hperm
  · intro text ms rest hread hend
    obtain ⟨htext, -⟩ := Json.value_document_iff.mp ⟨rest, hread, hend⟩
    exact htext.objectForm
  · intro s text h
    exact parse_members h
  · intro s hs
    apply parse_members
    rw [← tree_value]
    exact Json.Tree.text_text (tree_fits hs)

/-- The value of an unknown member is half of a surrogate pair. -/
theorem parse_known_members_of_surrogate :
    ∃ s, parse "\x7b\"a\":\"\\ud800\",\"timeoutSecs\":5\x7d" = .ok s := by
  have hfour : Json.HexFour 0xd800 ['d', '8', '0', '0'] :=
    .digits (Or.inl rfl : Json.HexDigit 0xd 'd') (Or.inl rfl : Json.HexDigit 8 '8')
      (Or.inl rfl : Json.HexDigit 0 '0') (Or.inl rfl : Json.HexDigit 0 '0')
  have hspelling : ∀ w ∈ [['\\', 'u', 'd', '8', '0', '0']], Json.SpellingForm w := by
    intro w hw
    rw [List.mem_singleton.mp hw]
    exact .number hfour
  have hsurrogate : ValueForm "\"\\ud800\"".toList := .string (.quoted hspelling)
  have hfive : ValueText (.number (.natural 5)) ['5'] := .number (.natural (by decide))
  have hunknown := Json.NamedForm.plain "a" (by decide) hsurrogate
  have hlimit := Json.NamedForm.plain "timeoutSecs" (by decide) hfive.form
  have hform : Json.ObjectForm [("a", "\"\\ud800\"".toList), ("timeoutSecs", ['5'])]
      "\x7b\"a\":\"\\ud800\",\"timeoutSecs\":5\x7d".toList :=
    .braces Space.nil (.more hunknown (.one hlimit)) Space.nil
  obtain ⟨hdecode, -⟩ := parse_known_members
  obtain ⟨honce, -⟩ := hdecode _ _ hform
  apply (honce (by intro f; cases f <;> decide)).1.mpr
  intro f w hw
  cases f <;> simp [SettingsField.name] at hw
  rw [hw]
  exact ⟨_, ⟨5, rfl⟩, hfive⟩

end Lintmark.Settings
