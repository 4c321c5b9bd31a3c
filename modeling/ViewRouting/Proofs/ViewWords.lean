import ViewRouting.Proofs.Typed
import ViewRouting.Proofs.HelperNames

/-! The helper that a view names. What comes before the first segment with the suffix counts for
nothing; from there on every segment gives the snake case of what it says before the suffix, and a
bare suffix gives none. Where there is such a word the helper is their join, and it is a helper
name. -/

namespace ViewRouting.Live
open Naming

inductive WordsOf (suffix : String) : List String → List String → Prop where
  | nil : WordsOf suffix [] []
  | bare {rest words : List String} (more : WordsOf suffix rest words) :
    WordsOf suffix (suffix :: rest) words
  | stem {stem : String} {rest words : List String} (some : stem ≠ "")
    (more : WordsOf suffix rest words) :
    WordsOf suffix ((stem ++ suffix) :: rest) (snakeCase stem :: words)
  | whole {segment : String} {rest words : List String}
    (other : ¬suffix.toList <:+ segment.toList) (more : WordsOf suffix rest words) :
    WordsOf suffix (segment :: rest) (snakeCase segment :: words)

theorem wordsOf_segments (suffix : String) {segments : List String}
    (valid : ∀ s ∈ segments, isSegment s) :
    WordsOf suffix segments
      ((segments.map fun s => snakeCase (stripSuffix (.string suffix) s)).filter
        fun word => !word.isEmpty) := by
  induction segments with
  | nil => exact .nil
  | cons s rest ih =>
    have more := ih fun t ht => valid t (by simp [ht])
    have word := word_of_segment suffix (valid s (by simp))
    by_cases bare : s = suffix
    · rw [if_pos bare] at word
      subst bare
      simpa [word] using WordsOf.bare more
    · rw [if_neg bare] at word
      have full : (snakeCase (stripSuffix (.string suffix) s)).isEmpty = false := by
        simpa using isHelper_ne_empty word
      rw [List.map_cons, List.filter_cons_of_pos (by simp [full])]
      by_cases ending : suffix.toList <:+ s.toList
      · obtain ⟨stem, rfl⟩ := stem_of_ending ending
        have some : stem ≠ "" := by
          rintro rfl
          exact bare (by simp)
        rw [stripSuffix_stem]
        exact .stem some more
      · rw [stripSuffix_whole ending]
        exact .whole ending more

theorem liveSegments_prepend {suffix : String} {outer : List String}
    (plain : ∀ s ∈ outer, '.' ∉ s.toList ∧ ¬suffix.toList <:+ s.toList) (view : String) :
    liveSegments (.string suffix) (Text.join "." (outer ++ segments view)) =
      liveSegments (.string suffix) view := by
  have clean : ∀ s ∈ outer ++ segments view, '.' ∉ s.toList := by
    intro s hs
    rcases List.mem_append.mp hs with hs | hs
    · exact (plain s hs).1
    · exact Text.split_clean '.' view s hs
  have back : segments (Text.join "." (outer ++ segments view)) = outer ++ segments view :=
    Text.split_join '.' clean (by simp [segments_ne_nil])
  rw [liveSegments, liveSegments, back, List.dropWhile_append_of_pos]
  intro s hs
  simpa [← hasEnding_text] using (plain s hs).2

section Inferring
variable {c : Conventions} {suffix : String} (hc : c.liveSuffix = .string suffix) {view : String}
variable (action : Value)
include hc

theorem names_of_inferred (dotted : isDotted view) {found : Observed Value}
    (ok : helperFor c view (some action) = .ok found) : NamesHelper suffix view := by
  by_contra nameless
  cases ok.symm.trans (helperFor_refused hc dotted nameless action)

theorem words_of_inferred (dotted : isDotted view) {found : Observed Value}
    (ok : helperFor c view (some action) = .ok found) :
    ∃ before live after words, segments view = before ++ live :: after ∧
      (∀ s ∈ before, ¬suffix.toList <:+ s.toList) ∧ suffix.toList <:+ live.toList ∧
      WordsOf suffix (live :: after) words ∧
      found.value = .string (Text.join "_" words) ∧ isHelper (Text.join "_" words) := by
  have names := names_of_inferred hc action dotted ok
  have helper := isHelper_join (helperWords_isHelper suffix dotted)
    ((helperWords_ne_nil suffix dotted).mpr names)
  obtain ⟨before, live, after, split, skipped, ending, -⟩ := names
  have value : found.value = .string (Text.join "_" (helperWords (.string suffix) view)) := by
    simp only [helperFor, hc, if_neg (isHelper_ne_empty helper)] at ok
    cases ok
    rfl
  have words : WordsOf suffix (live :: after) (helperWords (.string suffix) view) := by
    rw [helperWords, liveSegments_split split skipped ending]
    apply wordsOf_segments
    intro s hs
    exact List.all_eq_true.mp dotted s (by simp only [split, List.mem_append, hs, or_true])
  exact ⟨before, live, after, _, split, skipped, ending, words, value, helper⟩

theorem inferred_prepend {outer : List String}
    (plain : ∀ s ∈ outer, '.' ∉ s.toList ∧ ¬suffix.toList <:+ s.toList) (view : String) :
    (helperFor c (Text.join "." (outer ++ segments view)) (some action)).toOption.map
        Observed.value =
      (helperFor c view (some action)).toOption.map Observed.value := by
  have words : helperWords (.string suffix) (Text.join "." (outer ++ segments view)) =
      helperWords (.string suffix) view := by
    rw [helperWords, helperWords, liveSegments_prepend plain]
  simp only [helperFor, hc, words]
  split <;> rfl

end Inferring

/-- A view names a helper exactly where it has more than bare suffixes from its first segment with
the suffix on. The helper is the join of the words from there on, and always a helper name; segments
without the suffix can stand in front of the view without changing it. -/
theorem helper_inference {c : Conventions} (normalized : c.Normalized) {view : String}
    (dotted : isDotted view) (action : String) :
    let suffix := c.liveSuffix.text
    let inferred := fun view => helperFor c view (some (.string action))
    ((∃ found, inferred view = .ok found) ↔ NamesHelper suffix view) ∧
      (∀ found, inferred view = .ok found → ∃ before live after words,
        segments view = before ++ live :: after ∧
        (∀ s ∈ before, ¬suffix.toList <:+ s.toList) ∧ suffix.toList <:+ live.toList ∧
        WordsOf suffix (live :: after) words ∧
        found.value = .string (Text.join "_" words) ∧ isHelper (Text.join "_" words)) ∧
      (¬NamesHelper suffix view → ∃ fault, inferred view = .error fault ∧
        fault.code = "LIVE_HELPER_NAME_INFERENCE" ∧ fault.view? = some view) ∧
      ∀ outer : List String,
        (∀ s ∈ outer, '.' ∉ s.toList ∧ ¬suffix.toList <:+ s.toList) →
        (inferred (Text.join "." (outer ++ segments view))).toOption.map Observed.value =
          (inferred view).toOption.map Observed.value := by
  intro suffix inferred
  obtain ⟨text, hc, -⟩ := normalized.normal.liveSuffix
  have same : suffix = text := by
    show c.liveSuffix.text = text
    rw [hc]
    rfl
  rw [same]
  refine ⟨⟨?_, ?_⟩, ?_, ?_, ?_⟩
  · rintro ⟨found, ok⟩
    exact names_of_inferred hc _ dotted ok
  · intro names
    obtain ⟨name, -, ok⟩ := helperFor_inferred hc dotted names (.string action)
    exact ⟨_, ok⟩
  · intro found ok
    exact words_of_inferred hc _ dotted ok
  · intro nameless
    exact ⟨_, helperFor_refused hc dotted nameless (.string action), rfl, rfl⟩
  · intro outer plain
    exact inferred_prepend hc _ plain view

theorem helper_inference_prepended :
    Conventions.Normalized {} ∧ isDotted "FooBarLive.Live.FormLive" ∧
      NamesHelper "Live" "FooBarLive.Live.FormLive" ∧
      (helperFor {} "LiveArea.Admin.FooBarLive.Live.FormLive" (some (.string "edit"))).toOption.map
        Observed.value = some (.string "foo_bar_form") := by
  have normalized : Conventions.Normalized {} := Conventions.normalized_default
  have dotted : isDotted "FooBarLive.Live.FormLive" := by decide
  obtain ⟨succeeds, -, -, prepended⟩ := helper_inference normalized dotted "edit"
  exact ⟨normalized, dotted, succeeds.mp ⟨_, rfl⟩, prepended ["LiveArea", "Admin"] (by decide)⟩

end ViewRouting.Live
