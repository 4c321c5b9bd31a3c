import Mathlib.Data.List.Infix
import Mathlib.Data.List.TakeWhile
import ViewRouting.Live.Conventions
import ViewRouting.Proofs.Segments

/-! Names of helpers. Helper names joined by underscores are one, and so is the snake case of a
segment: each pass over it keeps the capital it starts with and adds nothing but underscores. So the
words of a view make a helper name wherever there is a word. -/

namespace ViewRouting.Naming

def isHelperChar (c : Char) : Bool :=
  c.isLower || c.isDigit || c = '_'

theorem isHelper_iff {s : String} :
    isHelper s ↔ ∃ c cs, s.toList = c :: cs ∧ (c.isLower ∨ c = '_') ∧
      ∀ d ∈ cs, isHelperChar d := by
  rw [isHelper]
  cases h : s.toList with
  | nil => simp
  | cons c cs => simp [isHelperChar, or_assoc]

theorem isHelper_ne_empty {s : String} (h : isHelper s) : s ≠ "" := by
  rintro rfl
  simp [isHelper] at h

theorem isHelper_concat {s t : String} (hs : isHelper s) (ht : isHelper t) :
    isHelper (s ++ "_" ++ t) := by
  obtain ⟨c, cs, hc, first, rest⟩ := isHelper_iff.mp hs
  obtain ⟨d, ds, hd, next, more⟩ := isHelper_iff.mp ht
  have start : isHelperChar d := by
    rcases next with h | h <;> simp [isHelperChar, h]
  refine isHelper_iff.mpr ⟨c, cs ++ '_' :: d :: ds, by simp [hc, hd], first, ?_⟩
  intro x hx
  simp only [List.mem_append, List.mem_cons] at hx
  rcases hx with hx | rfl | rfl | hx
  · exact rest x hx
  · decide
  · exact start
  · exact more x hx

theorem isHelper_join {words : List String} (helpers : ∀ w ∈ words, isHelper w)
    (some : words ≠ []) : isHelper (Text.join "_" words) := by
  induction words with
  | nil => exact absurd rfl some
  | cons first rest ih =>
    cases rest with
    | nil => simpa [Text.join] using helpers first (by simp)
    | cons second rest =>
      rw [Text.join, String.intercalate_cons_cons]
      apply isHelper_concat (helpers first (by simp))
      exact ih (fun w hw => helpers w (by simp [hw])) (by simp)

def IsHelperText (v : Value) : Prop :=
  ∃ s, v = .string s ∧ isHelper s

theorem IsHelperText.isText {v : Value} (h : IsHelperText v) : ∃ s, v = .string s := by
  obtain ⟨s, rfl, -⟩ := h
  exact ⟨s, rfl⟩

/-! Characters of segments. -/

theorem isSegment_iff {s : String} :
    isSegment s ↔ ∃ c cs, s.toList = c :: cs ∧ c.isUpper ∧ ∀ d ∈ cs, isWordChar d := by
  rw [isSegment]
  cases h : s.toList with
  | nil => simp
  | cons c cs => simp

theorem isSegment_prefix {stem rest : String} (some : stem ≠ "") (h : isSegment (stem ++ rest)) :
    isSegment stem := by
  obtain ⟨c, cs, hc, capital, word⟩ := isSegment_iff.mp h
  rw [String.toList_append] at hc
  cases hs : stem.toList with
  | nil => exact absurd (String.toList_injective hs) some
  | cons d ds =>
    rw [hs, List.cons_append, List.cons.injEq] at hc
    obtain ⟨rfl, rfl⟩ := hc
    exact isSegment_iff.mpr ⟨d, ds, hs, capital, fun x hx => word x (List.mem_append_left _ hx)⟩

theorem endsWith_iff {suffix s : String} : endsWith suffix s ↔ suffix.toList <:+ s.toList :=
  List.isSuffixOf_iff_suffix

theorem isAlphanum_ascii {c : Char} (h : c.isAlphanum) : c.toNat < 0x80 := by
  change (decide ('A'.val ≤ c.val ∧ c.val ≤ 'Z'.val) ||
    ('a'.val ≤ c.val && c.val ≤ 'z'.val) || ('0'.val ≤ c.val && c.val ≤ '9'.val)) = true at h
  simp only [Bool.or_eq_true, Bool.and_eq_true, decide_eq_true_eq, UInt32.le_iff_toNat_le] at h
  have Z : 'Z'.val.toNat = 90 := rfl
  have z : 'z'.val.toNat = 122 := rfl
  have nine : '9'.val.toNat = 57 := rfl
  simp only [Char.toNat]
  omega

theorem isWordChar_upper {c : Char} (h : c.isUpper) : isWordChar c := by
  have alphanum : c.isAlphanum = (c.isUpper || c.isLower || c.isDigit) := rfl
  simp [isWordChar, alphanum, h]

theorem isWordChar_ascii {c : Char} (h : isWordChar c) : c.toNat < 0x80 := by
  simp only [isWordChar, Bool.or_eq_true, decide_eq_true_eq] at h
  rcases h with h | rfl
  · exact isAlphanum_ascii h
  · decide

theorem forall_ascii {p : Char → Prop} (all : ∀ n < 0x80, p (Char.ofNat n)) {c : Char}
    (ascii : c.toNat < 0x80) : p c := by
  have h := all c.toNat ascii
  rwa [Char.ofNat_toNat] at h

theorem isHelperChar_toLower {c : Char} (h : isWordChar c) : isHelperChar c.toLower := by
  have all : ∀ n < 0x80, isWordChar (Char.ofNat n) → isHelperChar (Char.ofNat n).toLower := by
    decide
  exact forall_ascii (p := fun c => isWordChar c → isHelperChar c.toLower) all
    (isWordChar_ascii h) h

theorem isLower_toLower {c : Char} (h : c.isUpper) : c.toLower.isLower := by
  have all : ∀ n < 0x80, (Char.ofNat n).isUpper → (Char.ofNat n).toLower.isLower := by decide
  exact forall_ascii (p := fun c => c.isUpper → c.toLower.isLower) all
    (isWordChar_ascii (isWordChar_upper h)) h

theorem not_isLower_upper {c : Char} (h : c.isUpper) : c.isLower = false :=
  forall_ascii (p := fun c => c.isUpper → c.isLower = false) (by decide)
    (isWordChar_ascii (isWordChar_upper h)) h

theorem not_isHelper_signed {c : Char} (cs : List Char) (signed : c.isDigit ∨ c = '-') :
    isHelper (String.ofList (c :: cs)) = false := by
  have other : c.isLower = false ∧ c ≠ '_' := by
    rcases signed with digit | rfl
    · have ascii : c.toNat < 0x80 := isAlphanum_ascii (by simp [Char.isAlphanum, digit])
      revert digit
      exact forall_ascii (p := fun c => c.isDigit → c.isLower = false ∧ c ≠ '_') (by decide) ascii
    · decide
  simp [isHelper, other]

theorem not_isHelper_int (n : Int) : isHelper (toString n) = false := by
  cases n with
  | ofNat m =>
    have digits : toString (Int.ofNat m) = String.ofList (Nat.toDigits 10 m) := rfl
    rw [digits]
    cases h : Nat.toDigits 10 m with
    | nil => rfl
    | cons c cs =>
      have member : c ∈ Nat.toDigits 10 m := by simp [h]
      exact not_isHelper_signed cs
        (.inl (Nat.isDigit_of_mem_toDigits (by decide) (by decide) member))
  | negSucc m =>
    have digits : toString (Int.negSucc m) = String.ofList ('-' :: Nat.toDigits 10 (m + 1)) := by
      apply String.toList_injective
      show ("-" ++ Nat.repr (m + 1)).toList = _
      simp [Nat.repr]
    rw [digits]
    exact not_isHelper_signed _ (.inr rfl)

theorem isHelper_no_comma {s : String} (h : isHelper s) : ',' ∉ s.toList := by
  obtain ⟨c, cs, same, first, rest⟩ := isHelper_iff.mp h
  rw [same, List.mem_cons]
  rintro (rfl | hc)
  · revert first
    decide
  · have comma := rest ',' hc
    revert comma
    decide

theorem lowerFrom_ascii (inWord : Bool) {cs : List Char} (ascii : ∀ c ∈ cs, c.toNat < 0x80) :
    Text.lowerFrom inWord cs = cs.map Char.toLower := by
  induction cs generalizing inWord with
  | nil => rfl
  | cons c cs ih =>
    have hc := ascii c (by simp)
    have sigma : c ≠ 'Σ' := by
      rintro rfl
      exact absurd hc (by decide)
    rw [Text.lowerFrom, ih _ fun d hd => ascii d (by simp [hd])]
    simp [sigma, Text.lowerChar, hc]

/-! The passes of the snake case. -/

/-- The first character stays, and what is new is underscores. -/
structure Respelled (cs ds : List Char) : Prop where
  head : ds.head? = cs.head?
  new : ∀ c ∈ ds, c ∈ cs ∨ c = '_'

namespace Respelled

protected theorem refl (cs : List Char) : Respelled cs cs :=
  ⟨rfl, fun _ h => .inl h⟩

protected theorem trans {cs ds es : List Char} (first : Respelled cs ds) (next : Respelled ds es) :
    Respelled cs es where
  head := next.head.trans first.head
  new c hc := by
    rcases next.new c hc with h | h
    · exact first.new c h
    · exact .inr h

theorem cons {cs ds : List Char} (c : Char) (h : Respelled cs ds) :
    Respelled (c :: cs) (c :: ds) where
  head := rfl
  new d hd := by
    rcases List.mem_cons.mp hd with rfl | hd
    · exact .inl (by simp)
    · rcases h.new d hd with h | h
      · exact .inl (by simp [h])
      · exact .inr h

end Respelled

theorem mem_bridge (p : Char → Bool) (inRun : Bool) (cs : List Char) :
    ∀ c ∈ bridge p inRun cs, c ∈ cs ∨ c = '_' := by
  induction cs generalizing inRun with
  | nil => simp [bridge]
  | cons d cs ih =>
    intro c hc
    rw [bridge] at hc
    split at hc
    · rcases List.mem_append.mp hc with hc | hc
      · cases inRun <;> simp_all
      · rcases ih true c hc with h | h
        · exact .inl (by simp [h])
        · exact .inr h
    · rcases List.mem_cons.mp hc with rfl | hc
      · exact .inl (by simp)
      · rcases ih false c hc with h | h
        · exact .inl (by simp [h])
        · exact .inr h

theorem bridge_respelled {p : Char → Bool} {cs : List Char} (start : ∀ c ∈ cs.head?, p c = false) :
    Respelled cs (bridge p false cs) where
  new := mem_bridge p false cs
  head := by
    cases cs with
    | nil => rfl
    | cons c cs => simp [bridge, start c rfl]

theorem partRun_respelled (next : Char) (run : List Char) :
    Respelled run.reverse (partRun next run) := by
  match run with
  | [] => exact .refl _
  | [c] => exact .refl _
  | b :: a :: run =>
    rw [partRun]
    split
    · constructor
      · simp [List.head?_append]
      · intro c hc
        simp at hc ⊢
        tauto
    · exact .refl _

theorem partAcronyms_respelled (run cs : List Char) :
    Respelled (run.reverse ++ cs) (partAcronyms run cs) := by
  induction cs generalizing run with
  | nil => simpa [partAcronyms] using Respelled.refl run.reverse
  | cons c cs ih =>
    rw [partAcronyms]
    split
    · simpa using ih (c :: run)
    · have first := partRun_respelled c run
      have rest := (ih []).cons c
      constructor
      · simp [List.head?_append, first.head]
      · intro d hd
        rcases List.mem_append.mp hd with hd | hd
        · rcases first.new d hd with h | h
          · exact .inl (by simp [h])
          · exact .inr h
        · rcases rest.new d hd with h | h
          · exact .inl (by simp at h ⊢; tauto)
          · exact .inr h

theorem partWords_respelled (cs : List Char) : Respelled cs (partWords cs) := by
  induction cs using partWords.induct with
  | case1 a b cs parted ih =>
    rw [partWords, if_pos parted]
    have rest := (ih.cons b).cons a
    refine ⟨rfl, ?_⟩
    intro c hc
    have h : c = '_' ∨ c ∈ a :: b :: partWords cs := by simp at hc ⊢; tauto
    rcases h with h | h
    · exact .inr h
    · exact rest.new c h
  | case2 a b cs joined ih =>
    rw [partWords, if_neg joined]
    exact ih.cons a
  | case3 cs short =>
    rw [partWords]
    · exact .refl _
    · exact short

theorem snakeChars_respelled {c : Char} (cs : List Char) (capital : c.isUpper) :
    Respelled (c :: cs) (snakeChars (c :: cs)) := by
  have all : ∀ n < 0x80, (Char.ofNat n).isUpper →
      isGap (Char.ofNat n) = false ∧ Char.ofNat n ≠ '_' := by decide
  have plain : isGap c = false ∧ c ≠ '_' :=
    forall_ascii (p := fun c => c.isUpper → isGap c = false ∧ c ≠ '_') all
      (isWordChar_ascii (isWordChar_upper capital)) capital
  have gaps : Respelled (c :: cs) (bridge isGap false (c :: cs)) :=
    bridge_respelled (by simpa using plain.1)
  have parted := (gaps.trans (partAcronyms_respelled [] _)).trans (partWords_respelled _)
  refine parted.trans (bridge_respelled ?_)
  rw [parted.head]
  simpa using plain.2

theorem snakeCase_isHelper {s : String} (h : isSegment s) : isHelper (snakeCase s) := by
  obtain ⟨c, cs, hs, capital, word⟩ := isSegment_iff.mp h
  have passes := snakeChars_respelled cs capital
  have words : ∀ d ∈ snakeChars (c :: cs), isWordChar d := by
    intro d hd
    rcases passes.new d hd with h | rfl
    · rcases List.mem_cons.mp h with rfl | h
      · exact isWordChar_upper capital
      · exact word d h
    · decide
  obtain ⟨rest, hr⟩ := List.head?_eq_some_iff.mp passes.head
  have text : (snakeCase s).toList = (snakeChars (c :: cs)).map Char.toLower := by
    rw [snakeCase, Text.lower, hs, String.toList_ofList, String.toList_ofList,
      lowerFrom_ascii false fun d hd => isWordChar_ascii (words d hd)]
  rw [hr, List.map_cons] at text
  refine isHelper_iff.mpr ⟨_, _, text, .inl (isLower_toLower capital), ?_⟩
  intro d hd
  obtain ⟨e, he, rfl⟩ := List.mem_map.mp hd
  exact isHelperChar_toLower (words e (by simp [hr, he]))

end ViewRouting.Naming

/-! The words of a view. -/

namespace ViewRouting.Live
open Naming

theorem hasEnding_text (suffix s : String) :
    hasEnding (.string suffix) s ↔ suffix.toList <:+ s.toList :=
  endsWith_iff

theorem stem_of_ending {suffix segment : String} (ending : suffix.toList <:+ segment.toList) :
    ∃ stem, segment = stem ++ suffix := by
  obtain ⟨stem, h⟩ := ending
  exact ⟨String.ofList stem, String.toList_injective (by simp [← h])⟩

theorem stripSuffix_stem (stem suffix : String) :
    stripSuffix (.string suffix) (stem ++ suffix) = stem := by
  have ending : hasEnding (.string suffix) (stem ++ suffix) :=
    (hasEnding_text _ _).mpr (by simp)
  rw [stripSuffix, if_pos ending]
  simp [dropEnding, dropSuffix, Text.Cut.text]

theorem stripSuffix_whole {suffix segment : String} (other : ¬suffix.toList <:+ segment.toList) :
    stripSuffix (.string suffix) segment = segment := by
  rw [stripSuffix, if_neg (mt (hasEnding_text _ _).mp other)]

theorem stripSuffix_segment (suffix : String) {s : String} (h : isSegment s) :
    if s = suffix then stripSuffix (.string suffix) s = ""
    else isSegment (stripSuffix (.string suffix) s) := by
  by_cases ending : suffix.toList <:+ s.toList
  · obtain ⟨stem, rfl⟩ := stem_of_ending ending
    rw [stripSuffix_stem]
    by_cases bare : stem = ""
    · rw [if_pos (by rw [bare, String.empty_append]), bare]
    · rw [if_neg (by simpa using bare)]
      exact isSegment_prefix bare h
  · have longer : s ≠ suffix := by
      rintro rfl
      exact ending List.suffix_rfl
    rwa [stripSuffix_whole ending, if_neg longer]

theorem word_of_segment (suffix : String) {s : String} (h : isSegment s) :
    if s = suffix then snakeCase (stripSuffix (.string suffix) s) = ""
    else isHelper (snakeCase (stripSuffix (.string suffix) s)) := by
  have stripped := stripSuffix_segment suffix h
  split at stripped
  · next bare =>
    rw [if_pos bare, stripped]
    decide
  · next longer =>
    rw [if_neg longer]
    exact snakeCase_isHelper stripped

/-- From the first segment with the suffix on, there is more than the bare suffix. -/
def NamesHelper (suffix view : String) : Prop :=
  ∃ before live after, segments view = before ++ live :: after ∧
    (∀ s ∈ before, ¬suffix.toList <:+ s.toList) ∧ suffix.toList <:+ live.toList ∧
    ∃ s ∈ live :: after, s ≠ suffix

theorem liveSegments_split {suffix view live : String} {before after : List String}
    (split : segments view = before ++ live :: after)
    (skipped : ∀ s ∈ before, ¬suffix.toList <:+ s.toList) (ending : suffix.toList <:+ live.toList) :
    liveSegments (.string suffix) view = live :: after := by
  rw [liveSegments, split, List.dropWhile_append_of_pos]
  · simp [(hasEnding_text suffix live).mpr ending]
  · intro s hs
    simpa [← hasEnding_text] using skipped s hs

theorem liveSegments_more (suffix view : String) :
    NamesHelper suffix view ↔ ∃ s ∈ liveSegments (.string suffix) view, s ≠ suffix := by
  constructor
  · rintro ⟨before, live, after, split, skipped, ending, more⟩
    rw [liveSegments_split split skipped ending]
    exact more
  · rw [liveSegments]
    intro more
    cases h : (segments view).dropWhile fun s => !hasEnding (.string suffix) s with
    | nil => simp [h] at more
    | cons live after =>
      refine ⟨(segments view).takeWhile fun s => !hasEnding (.string suffix) s, live, after,
        ?_, ?_, ?_, by rwa [h] at more⟩
      · rw [← h, List.takeWhile_append_dropWhile]
      · intro s hs
        have := List.mem_takeWhile_imp hs
        simpa [← hasEnding_text] using this
      · have := List.head_dropWhile_not (fun s => !hasEnding (.string suffix) s)
          (l := segments view) (by simp [h])
        rw [← hasEnding_text]
        simpa [h] using this

theorem helperWords_isHelper (suffix : String) {view : String} (h : isDotted view) :
    ∀ w ∈ helperWords (.string suffix) view, isHelper w := by
  intro w hw
  obtain ⟨hw, full⟩ := List.mem_filter.mp hw
  obtain ⟨s, hs, rfl⟩ := List.mem_map.mp hw
  have segment := List.all_eq_true.mp h s ((List.dropWhile_sublist _).mem hs)
  have word := word_of_segment suffix segment
  split at word
  · simp [word] at full
  · exact word

theorem helperWords_ne_nil (suffix : String) {view : String} (h : isDotted view) :
    helperWords (.string suffix) view ≠ [] ↔ NamesHelper suffix view := by
  rw [liveSegments_more, helperWords, ne_eq, List.filter_eq_nil_iff]
  simp only [List.forall_mem_map, not_forall, exists_prop]
  refine exists_congr fun s => and_congr_right fun hs => ?_
  have word := word_of_segment suffix (List.all_eq_true.mp h s ((List.dropWhile_sublist _).mem hs))
  split at word
  · next bare =>
    rw [word]
    simp [bare]
  · next longer => simpa [longer] using isHelper_ne_empty word

theorem helperFor_inferred {c : Conventions} {suffix : String}
    (hc : c.liveSuffix = .string suffix) {view : String} (h : isDotted view)
    (names : NamesHelper suffix view) (action : Value) :
    ∃ name, isHelper name ∧
      helperFor c view (some action) = .ok ⟨.string name, [.helperInferred view action name]⟩ := by
  have some := (helperWords_ne_nil suffix h).mpr names
  have helper := isHelper_join (helperWords_isHelper suffix h) some
  refine ⟨_, helper, ?_⟩
  simp only [helperFor, hc, if_neg (isHelper_ne_empty helper)]

theorem helperFor_refused {c : Conventions} {suffix : String}
    (hc : c.liveSuffix = .string suffix) {view : String} (h : isDotted view)
    (nameless : ¬NamesHelper suffix view) (action : Value) :
    helperFor c view (some action) = .error (.helperNotInferred view suffix) := by
  have none := not_imp_comm.mp (helperWords_ne_nil suffix h).mp nameless
  simp only [helperFor, hc, none]
  rfl

end ViewRouting.Live
