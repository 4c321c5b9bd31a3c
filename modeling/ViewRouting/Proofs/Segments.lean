import ViewRouting.Naming
import ViewRouting.Path

/-! Segments of paths and of dotted identifiers. Both are pieces between separators with the empty
ones left out, so that joining and splitting agree: the segments of a join are the segments of its
parts, and grouping does not matter. A path made of segments is canonical, and an identifier made of
identifiers is one. -/

namespace ViewRouting

namespace Text

theorem split_clean (separator : Char) (s : String) :
    ∀ p ∈ split separator s, separator ∉ p.toList := by
  have h : ∀ cs : List Char, ∀ p ∈ cs.splitOn separator, separator ∉ p := by
    intro cs
    induction cs with
    | nil => simp
    | cons c cs ih =>
      rw [List.splitOn_cons_eq_if_modifyHead]
      split
      · simpa using ih
      · obtain ⟨p, ps, hp⟩ := List.exists_cons_of_ne_nil (List.splitOn_ne_nil separator cs)
        simp only [hp, List.forall_mem_cons, List.modifyHead_cons] at ih ⊢
        refine ⟨?_, ih.2⟩
        have hc : separator ≠ c := by rintro rfl; simp_all
        simp [hc, ih.1]
  simpa [split] using h s.toList

theorem split_separator (separator : Char) (s : String) :
    split separator (String.singleton separator ++ s) = "" :: split separator s := by
  simp [split, List.splitOn_cons_eq_if_modifyHead]

theorem split_ne_nil (separator : Char) (s : String) : split separator s ≠ [] := by
  simp [split, List.splitOn_ne_nil]

theorem split_trailing (separator : Char) (s : String) :
    split separator (s ++ String.singleton separator) = split separator s ++ [""] := by
  have joined : join (String.singleton separator) (split separator s ++ [""]) =
      s ++ String.singleton separator := by
    rw [join, String.intercalate_append_of_ne_nil (split_ne_nil separator s)
      (List.cons_ne_nil "" []), ← join, join_split, String.intercalate_singleton,
      String.append_empty]
  rw [← joined]
  apply split_join separator
  · intro p hp
    rcases List.mem_append.mp hp with hp | hp
    · exact split_clean separator s p hp
    · simp [List.mem_singleton.mp hp]
  · simp

def pieces (separator : Char) (s : String) : List String :=
  (split separator s).filter fun p => !p.isEmpty

theorem pieces_clean (separator : Char) (s : String) :
    ∀ p ∈ pieces separator s, separator ∉ p.toList ∧ p ≠ "" := by
  intro p hp
  obtain ⟨hp, hne⟩ := List.mem_filter.mp hp
  exact ⟨split_clean separator s p hp, by simpa using hne⟩

theorem pieces_join_filter (separator : Char) {ps : List String}
    (apart : ∀ p ∈ ps, separator ∉ p.toList) :
    pieces separator (join (String.singleton separator) ps) = ps.filter fun p => !p.isEmpty := by
  rw [pieces]
  by_cases h : ps = []
  · subst h
    simp [join, split]
  · rw [split_join separator apart h]

theorem pieces_join (separator : Char) {ps : List String}
    (clean : ∀ p ∈ ps, separator ∉ p.toList ∧ p ≠ "") :
    pieces separator (join (String.singleton separator) ps) = ps := by
  rw [pieces_join_filter separator fun p hp => (clean p hp).1, List.filter_eq_self]
  intro p hp
  simpa using (clean p hp).2

theorem count_join (c : Char) {separator : String} (h : c ∉ separator.toList)
    (ps : List String) :
    (join separator ps).toList.count c = (ps.flatMap String.toList).count c := by
  induction ps with
  | nil => rfl
  | cons p ps ih =>
    cases ps with
    | nil => simp [join]
    | cons q ps =>
      rw [join, String.intercalate_cons_cons, ← join]
      simp [ih, List.count_eq_zero.mpr h]

end Text

namespace Path

theorem segments_clean (path : String) : ∀ s ∈ segments path, '/' ∉ s.toList ∧ s ≠ "" :=
  Text.pieces_clean '/' path

theorem segments_ofSegments_filter {ss : List String} (apart : ∀ s ∈ ss, '/' ∉ s.toList) :
    segments (ofSegments ss) = ss.filter fun s => !s.isEmpty := by
  have h : Text.pieces '/' ("/" ++ Text.join "/" ss) = Text.pieces '/' (Text.join "/" ss) := by
    rw [Text.pieces, show "/" = String.singleton '/' from rfl, Text.split_separator]
    simp [Text.pieces]
  exact h.trans (Text.pieces_join_filter '/' apart)

theorem segments_ofSegments {ss : List String} (clean : ∀ s ∈ ss, '/' ∉ s.toList ∧ s ≠ "") :
    segments (ofSegments ss) = ss := by
  rw [segments_ofSegments_filter fun s hs => (clean s hs).1, List.filter_eq_self]
  intro s hs
  simpa using (clean s hs).2

theorem segments_join (outer inner : String) :
    segments (join outer inner) = segments outer ++ segments inner := by
  apply segments_ofSegments
  intro s hs
  rcases List.mem_append.mp hs with h | h
  · exact segments_clean outer s h
  · exact segments_clean inner s h

/-- A path that starts with a slash and has no empty segment, hence no slash at its end unless it
is the slash alone. -/
def IsCanonical (path : String) : Prop :=
  isRooted path ∧ (path = "/" ∨ ∀ s ∈ (Text.split '/' path).tail, s ≠ "")

theorem split_ofSegments {ss : List String} (apart : ∀ s ∈ ss, '/' ∉ s.toList) (some : ss ≠ []) :
    Text.split '/' (ofSegments ss) = "" :: ss := by
  rw [ofSegments, show "/" = String.singleton '/' from rfl, Text.split_separator,
    Text.split_join '/' apart some]

theorem ofSegments_canonical_iff {ss : List String} (apart : ∀ s ∈ ss, '/' ∉ s.toList) :
    IsCanonical (ofSegments ss) ↔ ss = [""] ∨ ∀ s ∈ ss, s ≠ "" := by
  have rooted : isRooted (ofSegments ss) := by simp [isRooted, ofSegments]
  simp only [IsCanonical, rooted, true_and]
  by_cases h : ss = []
  · subst h
    simp [ofSegments, Text.join]
  · have split := split_ofSegments apart h
    have root : ofSegments ss = "/" ↔ ss = [""] := by
      constructor
      · intro bare
        have same : Text.split '/' "/" = "" :: ss := bare ▸ split
        have pieces : Text.split '/' "/" = ["", ""] := by decide
        rw [pieces] at same
        exact (List.cons.inj same).2.symm
      · rintro rfl
        rfl
    rw [root, split, List.tail_cons]

theorem ofSegments_canonical {ss : List String} (clean : ∀ s ∈ ss, '/' ∉ s.toList ∧ s ≠ "") :
    IsCanonical (ofSegments ss) :=
  (ofSegments_canonical_iff fun s hs => (clean s hs).1).mpr (.inr fun s hs => (clean s hs).2)

theorem join_canonical (outer inner : String) : IsCanonical (join outer inner) := by
  apply ofSegments_canonical
  intro s hs
  rcases List.mem_append.mp hs with h | h
  · exact segments_clean outer s h
  · exact segments_clean inner s h

theorem root_canonical : IsCanonical "/" := by
  constructor
  · decide
  · exact .inl rfl

theorem join_root_eq_iff (path : String) : join "/" path = path ↔ IsCanonical path := by
  constructor
  · intro same
    rw [← same]
    exact join_canonical "/" path
  · rintro ⟨rooted, rfl | full⟩
    · decide
    · have start : path.toList.head? = some '/' := by simpa [isRooted] using rooted
      obtain ⟨cs, hcs⟩ := List.head?_eq_some_iff.mp start
      obtain ⟨rest, rfl⟩ : ∃ rest, path = "/" ++ rest :=
        ⟨String.ofList cs, String.toList_injective (by simp [hcs])⟩
      have split : Text.split '/' ("/" ++ rest) = "" :: Text.split '/' rest :=
        Text.split_separator '/' rest
      have segments : segments ("/" ++ rest) = Text.split '/' rest := by
        rw [split, List.tail_cons] at full
        rw [Path.segments, split]
        simpa using full
      have root : Path.segments "/" = [] := by decide
      rw [join, root, List.nil_append, segments, ofSegments]
      exact congrArg ("/" ++ ·) (Text.join_split '/' rest)

theorem IsCanonical.untrailed {path : String} (h : IsCanonical path) :
    path = "/" ∨ path.toList.getLast? ≠ some '/' := by
  refine h.2.imp_right fun full last => ?_
  obtain ⟨front, whole⟩ := List.getLast?_eq_some_iff.mp last
  have slashed : path = String.ofList front ++ "/" := String.toList_injective (by simp [whole])
  have behind : "" ∈ (Text.split '/' path).tail := by
    rw [slashed, show "/" = String.singleton '/' from rfl, Text.split_trailing,
      List.tail_append_of_ne_nil (Text.split_ne_nil '/' _)]
    simp
  exact full "" behind rfl

theorem dynamicNames_join (outer inner : String) :
    dynamicNames (join outer inner) = dynamicNames outer ++ dynamicNames inner := by
  rw [dynamicNames, pattern, segments_join, List.map_append, List.filterMap_append]
  rfl

theorem join_join (first second third : String) :
    join (join first second) third = join first (join second third) := by
  have outer : join (join first second) third =
      ofSegments (segments (join first second) ++ segments third) := rfl
  have inner : join first (join second third) =
      ofSegments (segments first ++ segments (join second third)) := rfl
  rw [outer, inner, segments_join, segments_join, List.append_assoc]

theorem join_root (path : String) : join path "/" = join "/" path := by
  have root : segments "/" = [] := by decide
  rw [join, join, root, List.append_nil, List.nil_append]

/-- Paths are joined like lists of segments: names of dynamic segments go along, grouping does not
matter, and the bare slash adds nothing to a path that is canonical, as every join is. -/
theorem join_algebra (first second third : String) :
    segments (join first second) = segments first ++ segments second ∧
      dynamicNames (join first second) = dynamicNames first ++ dynamicNames second ∧
      join (join first second) third = join first (join second third) ∧
      join "/" (join first second) = join first second ∧
      join (join first second) "/" = join first second ∧
      IsCanonical (join first second) ∧
      (join first second = "/" ∨ (join first second).toList.getLast? ≠ some '/') := by
  have canonical := join_canonical first second
  have whole : join "/" (join first second) = join first second :=
    (join_root_eq_iff _).mpr canonical
  refine ⟨segments_join first second, dynamicNames_join first second,
    join_join first second third, whole, ?_, canonical, canonical.untrailed⟩
  rw [join_root, whole]

end Path

namespace Naming

def parts (identifier : String) : List String :=
  (segments identifier).filter fun s => !s.isEmpty

theorem parts_clean (identifier : String) : ∀ s ∈ parts identifier, '.' ∉ s.toList ∧ s ≠ "" :=
  Text.pieces_clean '.' identifier

theorem concat_eq (identifiers : List String) :
    concat identifiers = Text.join "." (identifiers.flatMap parts) := by
  rw [concat, List.filter_flatMap]
  rfl

theorem parts_concat (identifiers : List String) :
    parts (concat identifiers) = identifiers.flatMap parts := by
  rw [concat_eq]
  apply Text.pieces_join '.'
  intro s hs
  obtain ⟨i, -, hs⟩ := List.mem_flatMap.mp hs
  exact parts_clean i s hs

theorem concat_nested (before inner behind : List String) :
    concat (before ++ concat inner :: behind) = concat (before ++ inner ++ behind) := by
  rw [concat_eq, concat_eq (before ++ inner ++ behind)]
  simp only [List.flatMap_append, List.flatMap_cons, parts_concat, List.append_assoc]

theorem concat_concat (outer inner : List String) :
    concat (concat outer :: inner) = concat (outer ++ inner) :=
  concat_nested [] outer inner

@[simp] theorem parts_empty : parts "" = [] := by
  simp [parts, segments, Text.split]

theorem isSegment_ne_empty {s : String} (h : isSegment s) : s ≠ "" := by
  rintro rfl
  simp [isSegment] at h

theorem parts_of_dotted {s : String} (h : isDotted s) : parts s = segments s := by
  rw [parts, List.filter_eq_self]
  intro p hp
  have hs := isSegment_ne_empty (List.all_eq_true.mp h p hp)
  simpa using hs

theorem segments_ne_nil (s : String) : segments s ≠ [] :=
  Text.split_ne_nil '.' s

@[simp] theorem not_isDotted_empty : isDotted "" = false := by
  simp [isDotted, segments, Text.split, isSegment]

theorem isDotted_ne_empty {s : String} (h : isDotted s) : s ≠ "" := by
  rintro rfl
  simp at h

theorem segments_concat {identifiers : List String}
    (dotted : ∀ i ∈ identifiers, i = "" ∨ isDotted i) (some : ∃ i ∈ identifiers, i ≠ "") :
    segments (concat identifiers) = identifiers.flatMap parts := by
  have ne : identifiers.flatMap parts ≠ [] := by
    obtain ⟨i, hi, hne⟩ := some
    have hd := (dotted i hi).resolve_left hne
    intro h
    rw [List.flatMap_eq_nil_iff] at h
    exact segments_ne_nil i (parts_of_dotted hd ▸ h i hi)
  rw [concat_eq]
  apply Text.split_join '.' _ ne
  intro s hs
  obtain ⟨i, -, hs⟩ := List.mem_flatMap.mp hs
  exact (parts_clean i s hs).1

theorem concat_dotted {identifiers : List String}
    (dotted : ∀ i ∈ identifiers, i = "" ∨ isDotted i) (some : ∃ i ∈ identifiers, i ≠ "") :
    isDotted (concat identifiers) := by
  rw [isDotted, segments_concat dotted some, List.all_eq_true]
  intro s hs
  obtain ⟨i, hi, hs⟩ := List.mem_flatMap.mp hs
  rcases dotted i hi with rfl | hd
  · simp at hs
  · rw [parts_of_dotted hd] at hs
    exact List.all_eq_true.mp hd s hs

theorem parts_present (i : String) (h : i = "" ∨ isDotted i) :
    parts i = if i ≠ "" then segments i else [] := by
  rcases h with rfl | h
  · simp
  · rw [parts_of_dotted h, if_pos (isDotted_ne_empty h)]

theorem flatMap_parts {identifiers : List String}
    (dotted : ∀ i ∈ identifiers, i = "" ∨ isDotted i) :
    identifiers.flatMap parts = (identifiers.filter (· ≠ "")).flatMap segments := by
  induction identifiers with
  | nil => rfl
  | cons i identifiers ih =>
    obtain ⟨head, rest⟩ := List.forall_mem_cons.mp dotted
    rw [List.flatMap_cons, parts_present i head, ih rest, List.filter_cons]
    by_cases h : i = "" <;> simp [h]

theorem concat_single {i : String} (h : i = "" ∨ isDotted i) : concat [i] = i := by
  rcases h with rfl | h
  · rfl
  · rw [concat_eq, List.flatMap_singleton, parts_of_dotted h]
    exact Text.join_split '.' i

theorem concat_empty_left (s : String) : concat ["", s] = concat [s] := by
  simp [concat_eq]

theorem concat_empty_right (s : String) : concat [s, ""] = concat [s] := by
  simp [concat_eq]

/-- Identifiers are joined like lists of segments. Identifiers and empty texts, not all of them
empty, make an identifier that has the segments of the identifiers one after another. Whatever the
texts are, grouping does not matter; and the empty text adds nothing to an identifier. -/
theorem concat_algebra :
    (∀ identifiers : List String, (∀ i ∈ identifiers, i = "" ∨ isDotted i) →
      (∃ i ∈ identifiers, i ≠ "") →
        isDotted (concat identifiers) ∧
          segments (concat identifiers) = (identifiers.filter (· ≠ "")).flatMap segments) ∧
      (∀ first second third : String,
        concat [concat [first, second], third] = concat [first, concat [second, third]] ∧
          concat [first, concat [second, third]] = concat [first, second, third]) ∧
      ∀ i : String, i = "" ∨ isDotted i → concat ["", i] = i ∧ concat [i, ""] = i := by
  refine ⟨fun identifiers dotted some => ?_, fun first second third => ?_, fun i h => ?_⟩
  · refine ⟨concat_dotted dotted some, ?_⟩
    rw [segments_concat dotted some, flatMap_parts dotted]
  · have left : concat [concat [first, second], third] = concat [first, second, third] :=
      concat_nested [] [first, second] [third]
    have right : concat [first, concat [second, third]] = concat [first, second, third] :=
      concat_nested [first] [second, third] []
    exact ⟨left.trans right.symm, right⟩
  · rw [concat_empty_left, concat_empty_right]
    exact ⟨concat_single h, concat_single h⟩

theorem concat_algebra_mixed :
    let identifiers := ["", "MyApp", "", "ArticleLive.Index"]
    (∀ i ∈ identifiers, i = "" ∨ isDotted i) ∧ (∃ i ∈ identifiers, i ≠ "") ∧
      isDotted (concat identifiers) ∧
      segments (concat identifiers) = ["MyApp", "ArticleLive", "Index"] ∧
      concat ["", "ArticleLive.Index"] = "ArticleLive.Index" := by
  intro identifiers
  have dotted : ∀ i ∈ identifiers, i = "" ∨ isDotted i := by decide
  have some : ∃ i ∈ identifiers, i ≠ "" := by decide
  obtain ⟨joined, -, unit⟩ := concat_algebra
  obtain ⟨whole, parted⟩ := joined identifiers dotted some
  exact ⟨dotted, some, whole, parted.trans (by decide), (unit _ (.inr (by decide))).1⟩

end Naming

end ViewRouting
