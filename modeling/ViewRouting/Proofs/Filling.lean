import ViewRouting.Proofs.Percent
import ViewRouting.Proofs.Typed

/-! What a filled path is made of. Every segment of a pattern has its place in the filled path, and
the parameters stand there in their forms, so that a filled path with a query can be taken apart
again: it was filled with these parameters and this query only. Parameters are written as they are,
empty ones too, and a filled path is canonical where none of them leaves an empty segment. -/

namespace ViewRouting

namespace Text

theorem split_whole {separator : Char} {s : String} (h : separator ∉ s.toList) :
    split separator s = [s] := by
  have alone := @split_join separator [s] (by simpa using h) (by simp)
  rwa [join, String.intercalate_singleton] at alone

theorem join_split_pieces (separator : Char) (ps : List String) :
    join (String.singleton separator) (ps.flatMap (split separator)) =
      join (String.singleton separator) ps := by
  induction ps with
  | nil => rfl
  | cons p ps ih =>
    cases ps with
    | nil => simpa [join] using join_split separator p
    | cons q ps =>
      have more : (q :: ps).flatMap (split separator) ≠ [] := by
        simp [List.flatMap_cons, split_ne_nil]
      have first := join_split separator p
      rw [join] at first ih ⊢
      rw [List.flatMap_cons, String.intercalate_append_of_ne_nil (split_ne_nil separator p) more,
        first, ih, join, join, String.intercalate_cons_cons]

end Text

namespace Path

/-- The segments that parameters give to a pattern. A fixed segment stays, a named one takes the
form of its parameter, and a rest takes those of all pieces between the slashes of its own. -/
inductive Fills : List Segment → List String → List String → Prop
  | nil : Fills [] [] []
  | fixed {pattern : List Segment} {parameters filled : List String} (text : String)
      (others : Fills pattern parameters filled) :
      Fills (.fixed text :: pattern) parameters (text :: filled)
  | named {pattern : List Segment} {parameters filled : List String} (name parameter : String)
      (others : Fills pattern parameters filled) :
      Fills (.named name :: pattern) (parameter :: parameters) (Text.component parameter :: filled)
  | rest {pattern : List Segment} {parameters filled : List String} (name parameter : String)
      (others : Fills pattern parameters filled) :
      Fills (.rest name :: pattern) (parameter :: parameters)
        ((Text.split '/' parameter).map Text.component ++ filled)

def Segment.isRest : Segment → Bool
  | .rest _ => true
  | _ => false

def Segment.isDynamic (s : Segment) : Bool :=
  s.name?.isSome

/-- Whether a parameter leaves no empty segment in the place of a dynamic one. -/
def Segment.Admits : Segment → String → Prop
  | .fixed _, _ => True
  | .named _, parameter => parameter ≠ ""
  | .rest _, parameter => ∀ piece ∈ Text.split '/' parameter, piece ≠ ""

/-- Fixed segments as they stand in the pattern of a path: not empty, and without a slash. -/
def Clean (pattern : List Segment) : Prop :=
  ∀ text, Segment.fixed text ∈ pattern → '/' ∉ text.toList ∧ text ≠ ""

theorem pattern_clean (path : String) : Clean (pattern path) := by
  intro text h
  obtain ⟨s, hs, same⟩ := List.mem_map.mp h
  rw [Segment.ofText] at same
  split at same <;> cases same
  exact segments_clean path _ hs

theorem Clean.tail {s : Segment} {pattern : List Segment} (h : Clean (s :: pattern)) :
    Clean pattern :=
  fun text ht => h text (List.mem_cons_of_mem s ht)

theorem split_encodeRest (parameter : String) :
    Text.split '/' (encodeRest parameter) =
      (Text.split '/' parameter).map Text.component := by
  apply Text.split_join '/'
  · intro p hp
    obtain ⟨piece, -, rfl⟩ := List.mem_map.mp hp
    exact (Text.component_clean piece).1
  · simpa using Text.split_ne_nil '/' parameter

theorem fillSegments_fills {pattern : List Segment} {parameters : List String}
    (clean : Clean pattern) (count : (pattern.filterMap Segment.name?).length = parameters.length) :
    Fills pattern parameters ((fillSegments pattern parameters).flatMap (Text.split '/')) := by
  induction pattern generalizing parameters with
  | nil =>
    rw [List.length_eq_zero_iff.mp count.symm]
    exact .nil
  | cons s pattern ih =>
    cases s with
    | fixed text =>
      rw [List.filterMap_cons_none rfl] at count
      rw [fillSegments, List.flatMap_cons,
        Text.split_whole (clean text List.mem_cons_self).1, List.singleton_append]
      exact .fixed text (ih clean.tail count)
    | named name =>
      obtain ⟨p, parameters, rfl⟩ : ∃ p ps, parameters = p :: ps :=
        List.exists_cons_of_length_eq_add_one (by simpa [Segment.name?] using count.symm)
      have rest : (pattern.filterMap Segment.name?).length = parameters.length := by
        simpa [Segment.name?] using count
      rw [fillSegments, List.flatMap_cons, Text.split_whole (Text.component_clean p).1,
        List.singleton_append]
      exact .named name p (ih clean.tail rest)
    | rest name =>
      obtain ⟨p, parameters, rfl⟩ : ∃ p ps, parameters = p :: ps :=
        List.exists_cons_of_length_eq_add_one (by simpa [Segment.name?] using count.symm)
      have rest : (pattern.filterMap Segment.name?).length = parameters.length := by
        simpa [Segment.name?] using count
      rw [fillSegments, List.flatMap_cons, split_encodeRest]
      exact .rest name p (ih clean.tail rest)

namespace Fills

variable {pattern : List Segment} {parameters parameters' filled filled' : List String}

theorem apart (h : Fills pattern parameters filled) (clean : Clean pattern) :
    ∀ s ∈ filled, '/' ∉ s.toList := by
  induction h with
  | nil => simp
  | fixed text others ih =>
    rw [List.forall_mem_cons]
    exact ⟨(clean text List.mem_cons_self).1, ih clean.tail⟩
  | named name parameter others ih =>
    rw [List.forall_mem_cons]
    exact ⟨(Text.component_clean parameter).1, ih clean.tail⟩
  | rest name parameter others ih =>
    rw [List.forall_mem_append, List.forall_mem_map]
    exact ⟨fun piece _ => (Text.component_clean piece).1, ih clean.tail⟩

theorem ne_nil (h : Fills pattern parameters filled) (some : pattern ≠ []) : filled ≠ [] := by
  cases h with
  | nil => exact absurd rfl some
  | fixed | named => simp
  | rest name parameter others => simp [Text.split_ne_nil]

theorem questions (h : Fills pattern parameters filled) (other : Fills pattern parameters' filled') :
    (filled.flatMap String.toList).count '?' = (filled'.flatMap String.toList).count '?' := by
  have none (ps : List String) : ((ps.map Text.component).flatMap String.toList).count '?' = 0 := by
    apply List.count_eq_zero.mpr
    intro h
    obtain ⟨s, hs, question⟩ := List.mem_flatMap.mp h
    obtain ⟨p, -, rfl⟩ := List.mem_map.mp hs
    exact (Text.component_clean p).2 question
  induction h generalizing parameters' filled' with
  | nil =>
    cases other with
    | nil => rfl
  | fixed text others ih =>
    cases other with
    | fixed _ other => simp [ih other]
  | named name parameter others ih =>
    cases other with
    | named _ parameter' other =>
      have alone (p : String) : (Text.component p).toList.count '?' = 0 := by
        simpa using none [p]
      simp [ih other, alone]
  | rest name parameter others ih =>
    cases other with
    | rest _ parameter' other =>
      rw [List.flatMap_append, List.flatMap_append, List.count_append, List.count_append, none, none,
        ih other]

theorem length_eq (h : Fills pattern parameters filled) (none : pattern.countP Segment.isRest = 0) :
    filled.length = pattern.length := by
  induction h with
  | nil => rfl
  | fixed text others ih => simpa using ih (by simpa [Segment.isRest] using none)
  | named name parameter others ih => simpa using ih (by simpa [Segment.isRest] using none)
  | rest => simp [Segment.isRest] at none

theorem injective (h : Fills pattern parameters filled) (other : Fills pattern parameters' filled)
    (single : pattern.countP Segment.isRest ≤ 1) : parameters = parameters' := by
  -- The segments tell the parameters if there is one rest at the most: it has what the segments
  -- before it and behind it leave.
  induction h generalizing parameters' with
  | nil =>
    cases other with
    | nil => rfl
  | fixed text others ih =>
    cases other with
    | fixed _ other => exact ih other (by simpa [Segment.isRest] using single)
  | @named pattern parameters filled name parameter others ih =>
    generalize hf : Text.component parameter :: filled = filled' at other
    cases other with
    | named _ parameter' other =>
      obtain ⟨form, rfl⟩ := List.cons.inj hf
      rw [Text.component_injective form, ih other (by simpa [Segment.isRest] using single)]
  | @rest pattern parameters filled name parameter others ih =>
    have none : pattern.countP Segment.isRest = 0 := by
      rw [List.countP_cons_of_pos rfl] at single
      omega
    generalize hf : (Text.split '/' parameter).map Text.component ++ filled = filled' at other
    cases other with
    | rest _ parameter' other =>
      have length := (others.length_eq none).trans (other.length_eq none).symm
      obtain ⟨forms, rfl⟩ := List.append_inj' hf length
      have component : Function.Injective Text.component := fun _ _ => Text.component_injective
      have pieces := List.map_injective_iff.mpr component forms
      have same : parameter = parameter' := by
        rw [← Text.join_split '/' parameter, ← Text.join_split '/' parameter', pieces]
      rw [same, ih other (by omega)]

theorem full_iff (h : Fills pattern parameters filled) (clean : Clean pattern) :
    (∀ s ∈ filled, s ≠ "") ↔
      List.Forall₂ Segment.Admits (pattern.filter Segment.isDynamic) parameters := by
  have empty (s : String) : Text.component s ≠ "" ↔ s ≠ "" := Text.component_eq_empty.not
  induction h with
  | nil => simp
  | fixed text others ih =>
    have full := (clean text List.mem_cons_self).2
    have full_others : (∀ s ∈ _, s ≠ "") ↔ _ := ih clean.tail
    rw [List.filter_cons_of_neg (by simp [Segment.isDynamic, Segment.name?]), ← full_others]
    simp [full]
  | named name parameter others ih =>
    have full_others : (∀ s ∈ _, s ≠ "") ↔ _ := ih clean.tail
    rw [List.filter_cons_of_pos rfl, List.forall₂_cons, ← full_others, List.forall_mem_cons, empty]
    rfl
  | rest name parameter others ih =>
    have full_others : (∀ s ∈ _, s ≠ "") ↔ _ := ih clean.tail
    rw [List.filter_cons_of_pos rfl, List.forall₂_cons, ← full_others, List.forall_mem_append,
      List.forall_mem_map]
    simp only [empty, Segment.Admits]

end Fills

/-! A path and its query. -/

def withFields (base : String) (fields : List (String × String)) : String :=
  if fields.isEmpty then base else base ++ "?" ++ Text.query fields

theorem withQuery_eq (base : String) (query : Query) :
    withQuery base query = withFields base (query.mapValues Scalar.written) := by
  cases query <;> rfl

theorem withFields_questions (base : String) (fields : List (String × String)) :
    (withFields base fields).toList.count '?' =
      base.toList.count '?' + if fields.isEmpty then 0 else 1 := by
  have query : (Text.query fields).toList.count '?' = 0 :=
    List.count_eq_zero.mpr (Text.query_clean fields)
  rw [withFields]
  split
  · rfl
  · simp [query]

theorem append_last_injective {α : Type} {c : α} {before before' behind behind' : List α}
    (last : c ∉ behind) (last' : c ∉ behind')
    (same : before ++ c :: behind = before' ++ c :: behind') :
    before = before' ∧ behind = behind' := by
  rcases List.append_eq_append_iff.mp same with ⟨more, rfl, h⟩ | ⟨more, rfl, h⟩
  · cases more with
    | nil => simpa using h
    | cons d more =>
      obtain ⟨rfl, rfl⟩ := List.cons.inj h
      simp at last
  · cases more with
    | nil => simpa [eq_comm] using h
    | cons d more =>
      obtain ⟨rfl, rfl⟩ := List.cons.inj h
      simp at last'

theorem withFields_injective {base base' : String} {fields fields' : List (String × String)}
    (questions : base.toList.count '?' = base'.toList.count '?')
    (same : withFields base fields = withFields base' fields') : base = base' ∧ fields = fields' := by
  -- A path may hold question marks of its own. As long as it is known how many, it can be told from
  -- its query.
  have alike : fields'.isEmpty = fields.isEmpty := by
    have count := congrArg (fun s => s.toList.count '?') same
    simp only [withFields_questions, questions] at count
    revert count
    cases fields.isEmpty <;> cases fields'.isEmpty <;> simp
  simp only [withFields, alike] at same
  split at same
  · next empty =>
    rw [List.isEmpty_iff.mp empty, List.isEmpty_iff.mp (alike.trans empty)]
    exact ⟨same, rfl⟩
  · have parted : base.toList ++ '?' :: (Text.query fields).toList =
        base'.toList ++ '?' :: (Text.query fields').toList := by
      simpa using congrArg String.toList same
    obtain ⟨bases, queries⟩ := append_last_injective (Text.query_clean fields)
      (Text.query_clean fields') parted
    exact ⟨String.toList_injective bases, Text.query_injective (String.toList_injective queries)⟩

theorem Fills.ofSegments_questions {pattern : List Segment}
    {parameters parameters' filled filled' : List String} (h : Fills pattern parameters filled)
    (other : Fills pattern parameters' filled') :
    (ofSegments filled).toList.count '?' = (ofSegments filled').toList.count '?' := by
  have slash : '?' ∉ "/".toList := by decide
  have count (ss : List String) :
      (ofSegments ss).toList.count '?' = (ss.flatMap String.toList).count '?' := by
    rw [← Text.count_join '?' slash, ofSegments]
    simp
  rw [count, count, h.questions other]

theorem Fills.ofSegments_injective {pattern : List Segment}
    {parameters parameters' filled filled' : List String} (h : Fills pattern parameters filled)
    (other : Fills pattern parameters' filled') (clean : Clean pattern)
    (same : ofSegments filled = ofSegments filled') : filled = filled' := by
  by_cases some : pattern = []
  · subst some
    cases h
    cases other
    rfl
  · have first := split_ofSegments (h.apart clean) (h.ne_nil some)
    rw [same, split_ofSegments (other.apart clean) (other.ne_nil some)] at first
    exact (List.cons.inj first).2.symm

end Path

/-! What callers pass. -/

namespace Value

def IsParameter (v : Value) : Prop :=
  v.IsText ∨ ∃ n, v = .number n

def IsQueryValue (v : Value) : Prop :=
  v.IsParameter ∨ v.IsBool

def IsQuery (v : Value) : Prop :=
  v = .undefined ∨ ∃ kind fields, v = .object kind fields ∧ ∀ f ∈ fields, f.2.IsQueryValue

end Value

namespace Path

theorem Scalar.ofValue_written {v : Value} (h : v.IsQueryValue) :
    ∃ s, Scalar.ofValue v = .ok s ∧ s.written = v.text := by
  rcases h with (⟨s, rfl⟩ | ⟨n, rfl⟩) | ⟨b, rfl⟩
  · exact ⟨.text s, rfl, rfl⟩
  · exact ⟨.number n, rfl, rfl⟩
  · exact ⟨.truth b, rfl, rfl⟩

theorem mapM_read {α β γ : Type} {read : α → Except Fault β} {view : β → γ} {expected : α → γ}
    {xs : List α} (each : ∀ x ∈ xs, ∃ y, read x = .ok y ∧ view y = expected x) :
    ∃ ys, xs.mapM read = .ok ys ∧ ys.map view = xs.map expected := by
  induction xs with
  | nil => exact ⟨[], rfl, rfl⟩
  | cons x xs ih =>
    obtain ⟨y, hy, same⟩ := each x List.mem_cons_self
    obtain ⟨ys, hys, others⟩ := ih fun x hx => each x (List.mem_cons_of_mem _ hx)
    refine ⟨y :: ys, ?_, by rw [List.map_cons, List.map_cons, same, others]⟩
    rw [List.mapM_cons, hy, hys]
    rfl

theorem parameters_read {parameters : List Value} (typed : ∀ p ∈ parameters, p.IsParameter) :
    ∃ scalars, parameters.mapM Scalar.ofValue = .ok scalars ∧
      scalars.map Scalar.written = parameters.map Value.text :=
  mapM_read fun p hp => Scalar.ofValue_written (.inl (typed p hp))

theorem query_read {query : Value} (typed : query.IsQuery) :
    ∃ fields, Query.ofValue query = .ok fields ∧
      Record.mapValues Scalar.written fields = Record.mapValues Value.text query.ownFields := by
  have scalars : ∀ f ∈ query.ownFields, f.2.IsQueryValue := by
    rcases typed with rfl | ⟨kind, fields, rfl, scalars⟩
    · intro f hf
      cases hf
    · exact scalars
  apply mapM_read
  intro f hf
  obtain ⟨s, hs, written⟩ := Scalar.ofValue_written (scalars f hf)
  exact ⟨(f.1, s), by rw [hs]; rfl, by rw [written]⟩

theorem fillGiven_ok {path : String} {parameters : List Value} {query : Value}
    (typed : ∀ p ∈ parameters, p.IsParameter) (asked : query.IsQuery) {built : String} :
    fillGiven path parameters query = .ok built ↔
      (dynamicNames path).length = parameters.length ∧
        built = withFields (ofSegments (fillSegments (pattern path) (parameters.map Value.text)))
          (Record.mapValues Value.text query.ownFields) := by
  obtain ⟨scalars, hs, texts⟩ := parameters_read typed
  obtain ⟨fields, hf, values⟩ := query_read asked
  have length : scalars.length = parameters.length := by simpa using congrArg List.length texts
  by_cases count : (dynamicNames path).length = parameters.length
  · simp only [fillGiven, fill, requireCount, count, length, if_true, ok_mapError, hs, hf, bind,
      Except.bind, pure, Except.pure, texts, withQuery_eq, values, Except.ok.injEq, true_and]
    exact eq_comm
  · simp [fillGiven, requireCount, count, bind, Except.bind, Except.mapError]

theorem exists_fills {path : String} {parameters : List Value}
    (count : (dynamicNames path).length = parameters.length) :
    ∃ filled, Fills (pattern path) (parameters.map Value.text) filled ∧
      ofSegments (fillSegments (pattern path) (parameters.map Value.text)) = ofSegments filled := by
  have texts : (dynamicNames path).length = (parameters.map Value.text).length := by
    rw [List.length_map, count]
  refine ⟨_, fillSegments_fills (pattern_clean path) texts, ?_⟩
  exact congrArg ("/" ++ ·) (Text.join_split_pieces '/' _).symm

/-- A path with one rest at the most and the path that was filled in tell the parameters, each by its
text, and the query, field by field. -/
theorem fillGiven_injective {path : String}
    (single : (pattern path).countP Segment.isRest ≤ 1) {parameters parameters' : List Value}
    {query query' : Value} (typed : ∀ p ∈ parameters, p.IsParameter)
    (typed' : ∀ p ∈ parameters', p.IsParameter) (asked : query.IsQuery) (asked' : query'.IsQuery)
    {built : String} (first : fillGiven path parameters query = .ok built)
    (second : fillGiven path parameters' query' = .ok built) :
    parameters.map Value.text = parameters'.map Value.text ∧
      Record.mapValues Value.text query.ownFields =
        Record.mapValues Value.text query'.ownFields := by
  obtain ⟨count, rfl⟩ := (fillGiven_ok typed asked).mp first
  obtain ⟨count', same⟩ := (fillGiven_ok typed' asked').mp second
  obtain ⟨filled, fills, path_eq⟩ := exists_fills count
  obtain ⟨filled', fills', path_eq'⟩ := exists_fills count'
  rw [path_eq, path_eq'] at same
  obtain ⟨bases, fields⟩ := withFields_injective (fills.ofSegments_questions fills') same
  obtain rfl := fills.ofSegments_injective fills' (pattern_clean path) bases
  exact ⟨fills.injective fills' single, fields⟩

theorem fillGiven_injective_mixed :
    let path := "/:owner/raw?/*rest/at/:place"
    let parameters := [Value.number (.ofNat 7), .string "a b//c", .string "?"]
    let parameters' := [Value.string "7", .string "a b//c", .string "?"]
    let query := Value.object .ordinary [("q", .string "&="), ("all", .bool true)]
    let query' := Value.object .bare [("q", .string "&="), ("all", .string "true")]
    let built := "/7/raw?/a%20b//c/at/%3F?q=%26%3D&all=true"
    (pattern path).countP Segment.isRest ≤ 1 ∧
      fillGiven path parameters query = .ok built ∧
      fillGiven path parameters' query' = .ok built ∧
      parameters.map Value.text = parameters'.map Value.text ∧
      Record.mapValues Value.text query.ownFields =
        Record.mapValues Value.text query'.ownFields := by
  intro path parameters parameters' query query' built
  have single : (pattern path).countP Segment.isRest ≤ 1 := by decide
  have first : fillGiven path parameters query = .ok built := by decide +kernel
  have second : fillGiven path parameters' query' = .ok built := by decide +kernel
  have typed : ∀ p ∈ parameters, p.IsParameter := by
    simp [parameters, Value.IsParameter, Value.IsText]
  have typed' : ∀ p ∈ parameters', p.IsParameter := by
    simp [parameters', Value.IsParameter, Value.IsText]
  have asked : query.IsQuery := by
    refine .inr ⟨_, _, rfl, ?_⟩
    simp [Value.IsQueryValue, Value.IsParameter, Value.IsText, Value.IsBool]
  have asked' : query'.IsQuery := by
    refine .inr ⟨_, _, rfl, ?_⟩
    simp [Value.IsQueryValue, Value.IsParameter, Value.IsText, Value.IsBool]
  exact ⟨single, first, second, fillGiven_injective single typed typed' asked asked' first second⟩

/-- A path filled without a query is made of the segments that the parameters give. It is canonical
if the parameters leave no segment empty, and then these are its segments. What a parameter leaves
empty stays in the path, where it is no segment; only a path of one empty segment is canonical then.
-/
theorem fillGiven_segments {path : String} {parameters : List Value}
    (typed : ∀ p ∈ parameters, p.IsParameter)
    (count : parameters.length = (dynamicNames path).length) :
    let admitted := List.Forall₂ Segment.Admits ((pattern path).filter Segment.isDynamic)
      (parameters.map Value.text)
    ∃ filled, Fills (pattern path) (parameters.map Value.text) filled ∧
      fillGiven path parameters .undefined = .ok (ofSegments filled) ∧
      segments (ofSegments filled) = filled.filter (fun s => !s.isEmpty) ∧
      (admitted → segments (ofSegments filled) = filled ∧ ∀ s ∈ filled, s ≠ "") ∧
      (IsCanonical (ofSegments filled) ↔ admitted ∨ filled = [""]) ∧
      (join "/" (ofSegments filled) = ofSegments filled ↔ IsCanonical (ofSegments filled)) := by
  intro admitted
  obtain ⟨filled, fills, path_eq⟩ := exists_fills count.symm
  have clean := pattern_clean path
  have apart := fills.apart clean
  have full : (∀ s ∈ filled, s ≠ "") ↔ admitted := fills.full_iff clean
  have built : fillGiven path parameters .undefined = .ok (ofSegments filled) :=
    (fillGiven_ok typed (.inl rfl)).mpr ⟨count.symm, path_eq.symm⟩
  refine ⟨filled, fills, built, segments_ofSegments_filter apart, ?_, ?_, join_root_eq_iff _⟩
  · intro right
    have whole := full.mpr right
    exact ⟨segments_ofSegments fun s hs => ⟨apart s hs, whole s hs⟩, whole⟩
  · rw [ofSegments_canonical_iff apart, full, or_comm]

theorem fillGiven_segments_rest :
    let path := "/files/:owner/*path"
    let parameters := [Value.number (.ofNat 7), .string "a b/c"]
    (∀ p ∈ parameters, p.IsParameter) ∧ parameters.length = (dynamicNames path).length ∧
      ∃ filled, Fills (pattern path) (parameters.map Value.text) filled ∧
        fillGiven path parameters .undefined = .ok (ofSegments filled) ∧
        ofSegments filled = "/files/7/a%20b/c" ∧ segments (ofSegments filled) = filled ∧
        IsCanonical (ofSegments filled) := by
  intro path parameters
  have typed : ∀ p ∈ parameters, p.IsParameter := by
    simp [parameters, Value.IsParameter, Value.IsText]
  have count : parameters.length = (dynamicNames path).length := by decide
  have given : fillGiven path parameters .undefined = .ok "/files/7/a%20b/c" := by decide +kernel
  have dynamic : (pattern path).filter Segment.isDynamic = [.named "owner", .rest "path"] := by
    decide
  have texts : parameters.map Value.text = ["7", "a b/c"] := by decide +kernel
  have owner : (Segment.named "owner").Admits "7" := by
    rw [Segment.Admits]
    decide
  have rest : (Segment.rest "path").Admits "a b/c" := by
    rw [Segment.Admits]
    decide
  obtain ⟨filled, fills, built, -, whole, canonical, -⟩ := fillGiven_segments typed count
  rw [dynamic, texts] at whole canonical
  have admitted : List.Forall₂ Segment.Admits [.named "owner", .rest "path"] ["7", "a b/c"] :=
    .cons owner (.cons rest .nil)
  exact ⟨typed, count, filled, fills, built, Except.ok.inj (built.symm.trans given),
    (whole admitted).1, canonical.mpr (.inl admitted)⟩

/-- Parameters are not looked at: a piece that is empty and a named segment that is empty leave
paths that joining changes. -/
theorem fillGiven_empty_segments :
    fillGiven "/files/*path" [.string "a//b"] .undefined = .ok "/files/a//b" ∧
      join "/" "/files/a//b" = "/files/a/b" ∧
      fillGiven "/users/:name" [.string ""] .undefined = .ok "/users/" ∧
      join "/" "/users/" = "/users" ∧ segments "/users/" = ["users"] := by
  refine ⟨?_, ?_, ?_, ?_, ?_⟩ <;> decide +kernel

end Path

end ViewRouting
