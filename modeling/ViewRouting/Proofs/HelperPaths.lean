import ViewRouting.Proofs.Description
import ViewRouting.Proofs.Filling
import ViewRouting.Proofs.Lexical.Places

/-! Paths by helper. The path that a helper and an action give is put together from the scopes
around the declaration that is found, and its dynamic segments and the parameters are in step,
although they are counted apart: the segments before a dynamic segment say which parameter takes its
place. -/

namespace ViewRouting.Path

def takesParameter (text : String) : Bool :=
  text.toList.head? == some ':' || text.toList.head? == some '*'

def parameterAt (texts : List String) (place : Nat) : Nat :=
  (texts.take place).countP takesParameter

/-- A parameter in the place of a segment: encoded as a whole behind a colon, else piece by piece
between its slashes. -/
def inPlaceOf (text parameter : String) : String :=
  if text.toList.head? = some ':' then Text.component parameter
  else Text.join "/" ((Text.split '/' parameter).map Text.component)

/-- Fixed segments as they are, and in the places of the others the parameters in order, each of
them once. -/
structure Substitutes (texts parameters filled : List String) : Prop where
  length : filled.length = texts.length
  fixed : ∀ {i : Nat} {text : String}, texts[i]? = some text → takesParameter text = false →
    filled[i]? = some text
  taken : ∀ {i : Nat} {text : String}, texts[i]? = some text → takesParameter text →
    ∃ p, parameters[parameterAt texts i]? = some p ∧ filled[i]? = some (inPlaceOf text p)
  once : ∀ {k : Nat}, k < parameters.length →
    ∃! i, (∃ text, texts[i]? = some text ∧ takesParameter text) ∧ parameterAt texts i = k

/-! A segment by its first character. -/

theorem ofText_fixed {text : String} (h : takesParameter text = false) :
    Segment.ofText text = .fixed text := by
  simp only [takesParameter, Bool.or_eq_false_iff, beq_eq_false_iff_ne, ne_eq] at h
  rw [Segment.ofText]
  split
  · next chars => simp [chars] at h
  · next chars => simp [chars] at h
  · rfl

theorem ofText_dynamic {text : String} (h : takesParameter text) :
    (text.toList.head? = some ':' ∧ ∃ name, Segment.ofText text = .named name) ∨
      text.toList.head? ≠ some ':' ∧ ∃ name, Segment.ofText text = .rest name := by
  simp only [takesParameter, Bool.or_eq_true, beq_iff_eq] at h
  rcases h with h | h
  · obtain ⟨rest, chars⟩ := List.head?_eq_some_iff.mp h
    refine .inl ⟨h, String.ofList rest, ?_⟩
    rw [Segment.ofText, chars]
    rfl
  · obtain ⟨rest, chars⟩ := List.head?_eq_some_iff.mp h
    refine .inr ⟨by simp [chars], String.ofList rest, ?_⟩
    rw [Segment.ofText, chars]
    rfl

theorem name?_isSome (text : String) :
    (Segment.ofText text).name?.isSome = takesParameter text := by
  cases h : takesParameter text with
  | false => rw [ofText_fixed h]; rfl
  | true => rcases ofText_dynamic h with ⟨-, _, named⟩ | ⟨-, _, named⟩ <;> rw [named] <;> rfl

theorem names_length (texts : List String) :
    ((texts.map Segment.ofText).filterMap Segment.name?).length = texts.countP takesParameter := by
  induction texts with
  | nil => rfl
  | cons text texts ih =>
    have name := name?_isSome text
    rw [List.map_cons, List.countP_cons, ← ih]
    cases h : (Segment.ofText text).name? with
    | none =>
      rw [h] at name
      simp [List.filterMap_cons_none h, ← name]
    | some n =>
      rw [h] at name
      simp [List.filterMap_cons_some h, ← name]

/-! Filling, segment by segment. -/

theorem parameterAt_cons (text : String) (texts : List String) (i : Nat) :
    parameterAt (text :: texts) (i + 1) =
      parameterAt texts i + if takesParameter text then 1 else 0 := by
  rw [parameterAt, List.take_succ_cons, List.countP_cons, parameterAt]

namespace Substitutes
variable {texts parameters filled : List String} {text : String}

theorem nil : Substitutes [] [] [] where
  length := rfl
  fixed h := by cases h
  taken h := by cases h
  once h := by cases h

theorem cons_fixed (h : Substitutes texts parameters filled) (own : takesParameter text = false) :
    Substitutes (text :: texts) parameters (text :: filled) := by
  have shift (i : Nat) : parameterAt (text :: texts) (i + 1) = parameterAt texts i := by
    rw [parameterAt_cons, own]
    rfl
  refine ⟨by rw [List.length_cons, List.length_cons, h.length], ?_, ?_, ?_⟩
  · rintro (_ | i) t ht fixed
    · exact ht
    · exact h.fixed ht fixed
  · rintro (_ | i) t ht dynamic
    · cases ht
      simp [own] at dynamic
    · rw [shift]
      exact h.taken ht dynamic
  · intro k hk
    obtain ⟨i, ⟨dynamic, number⟩, unique⟩ := h.once hk
    refine ⟨i + 1, ⟨dynamic, by rw [shift, number]⟩, ?_⟩
    rintro (_ | j) ⟨⟨t, ht, dynamic⟩, number⟩
    · cases ht
      simp [own] at dynamic
    · rw [shift] at number
      rw [unique j ⟨⟨t, ht, dynamic⟩, number⟩]

theorem cons_taken (h : Substitutes texts parameters filled) (own : takesParameter text)
    (p : String) :
    Substitutes (text :: texts) (p :: parameters) (inPlaceOf text p :: filled) := by
  have shift (i : Nat) : parameterAt (text :: texts) (i + 1) = parameterAt texts i + 1 := by
    rw [parameterAt_cons, own]
    rfl
  refine ⟨by rw [List.length_cons, List.length_cons, h.length], ?_, ?_, ?_⟩
  · rintro (_ | i) t ht fixed
    · cases ht
      simp [own] at fixed
    · exact h.fixed ht fixed
  · rintro (_ | i) t ht dynamic
    · cases ht
      exact ⟨p, rfl, rfl⟩
    · rw [shift]
      exact h.taken ht dynamic
  · rintro (_ | k) hk
    · refine ⟨0, ⟨⟨text, rfl, own⟩, rfl⟩, ?_⟩
      rintro (_ | j) ⟨-, number⟩
      · rfl
      · rw [shift] at number
        omega
    · obtain ⟨i, ⟨dynamic, number⟩, unique⟩ := h.once (Nat.lt_of_succ_lt_succ hk)
      refine ⟨i + 1, ⟨dynamic, by rw [shift, number]⟩, ?_⟩
      rintro (_ | j) ⟨found, number⟩
      · cases number
      · rw [shift] at number
        rw [unique j ⟨found, Nat.succ.inj number⟩]

end Substitutes

theorem fillSegments_substitutes {texts parameters : List String}
    (count : parameters.length = texts.countP takesParameter) :
    Substitutes texts parameters (fillSegments (texts.map Segment.ofText) parameters) := by
  induction texts generalizing parameters with
  | nil =>
    rw [List.length_eq_zero_iff.mp count]
    exact .nil
  | cons text texts ih =>
    cases own : takesParameter text with
    | false =>
      rw [List.countP_cons_of_neg (by simp [own])] at count
      rw [List.map_cons, ofText_fixed own]
      exact (ih count).cons_fixed own
    | true =>
      rw [List.countP_cons_of_pos own] at count
      obtain ⟨p, parameters, rfl⟩ := List.exists_cons_of_length_eq_add_one count
      have rest := (ih (Nat.succ.inj count)).cons_taken own p
      rw [List.map_cons]
      rcases ofText_dynamic own with ⟨colon, name, named⟩ | ⟨star, name, named⟩
      · rw [inPlaceOf, if_pos colon] at rest
        rw [named]
        exact rest
      · rw [inPlaceOf, if_neg star] at rest
        rw [named]
        exact rest

def FailsWith (code : String) {α : Type} (result : Except Fault α) : Prop :=
  ∃ fault, result = .error fault ∧ fault.code? = some code

theorem Scalar.ofValue_error {v : Value} {fault : Fault} (h : Scalar.ofValue v = .error fault) :
    fault = .unreadable := by
  unfold Scalar.ofValue at h
  split at h
  case h_5 => split at h <;> cases h; rfl
  all_goals cases h

theorem read_cases (parameters : List Value) :
    (∃ scalars, parameters.mapM Scalar.ofValue = .ok scalars ∧
      scalars.length = parameters.length) ∨
      parameters.mapM Scalar.ofValue = .error .unreadable := by
  induction parameters with
  | nil => exact .inl ⟨[], rfl, rfl⟩
  | cons v parameters ih =>
    rw [List.mapM_cons]
    cases hv : Scalar.ofValue v with
    | error fault => exact .inr (by rw [Scalar.ofValue_error hv]; rfl)
    | ok scalar =>
      rcases ih with ⟨scalars, read, length⟩ | unreadable
      · exact .inl ⟨scalar :: scalars, by rw [read]; rfl, by rw [List.length_cons, length]; rfl⟩
      · exact .inr (by rw [unreadable]; rfl)

theorem fillGiven_fails (path : String) (parameters : List Value) (code : String) :
    FailsWith code (fillGiven path parameters .undefined) ↔
      code = "ROUTER_PARAM_MISMATCH" ∧ parameters.length ≠ (dynamicNames path).length := by
  -- Without a query, filling fails with a code where the number of the parameters is wrong, and it
  -- has no code where one of them cannot be written.
  rw [fillGiven]
  by_cases count : (dynamicNames path).length = parameters.length
  · have counted : requireCount path parameters.length = .ok () := by
      rw [requireCount, if_pos count]
    have query : Query.ofValue .undefined = .ok [] := rfl
    rw [counted, query]
    constructor
    · rintro ⟨fault, failed, code⟩
      rcases read_cases parameters with ⟨scalars, read, length⟩ | unreadable
      · rw [read, ok_mapError] at failed
        simp only [bind, Except.bind] at failed
        rw [fill, length, counted] at failed
        cases failed
      · rw [unreadable] at failed
        cases failed
        cases code
    · rintro ⟨-, other⟩
      exact absurd count.symm other
  · rw [requireCount, if_neg count]
    constructor
    · rintro ⟨fault, failed, hc⟩
      cases failed
      cases hc
      exact ⟨rfl, Ne.symm count⟩
    · rintro ⟨rfl, -⟩
      exact ⟨_, rfl, rfl⟩

end ViewRouting.Path

namespace ViewRouting.Router
open ViewRouting.Path

def Entry.Keyed (helper action : String) (e : Entry) : Prop :=
  e.helper = .string helper ∧ e.action = action

theorem Entry.keyed_iff {e : Entry} {helper action : String} :
    (e.isHelpedBy helper && e.action == action) ↔ e.Keyed helper action := by
  rw [isHelpedBy, Keyed]
  cases e.helper <;> simp [Value.asString?]

namespace Table
variable {t : Table} {helper action : String}

theorem find?_none : t.find? helper action = none ↔ ∀ e ∈ t.routes, ¬e.Keyed helper action := by
  rw [find?, List.find?_eq_none]
  simp only [Entry.keyed_iff]

theorem find?_some {e : Entry} (found : t.find? helper action = some e) :
    e ∈ t.routes ∧ e.Keyed helper action := by
  rw [find?] at found
  have holds := List.find?_some found
  exact ⟨List.mem_of_find?_eq_some found, Entry.keyed_iff.mp holds⟩

theorem find?_earliest {earlier later : List Entry} {e : Entry}
    (routes : t.routes = earlier ++ e :: later)
    (others : ∀ x ∈ earlier, ¬x.Keyed helper action) (keyed : e.Keyed helper action) :
    t.find? helper action = some e := by
  have none : earlier.find? (fun x => x.isHelpedBy helper && x.action == action) = none := by
    rw [List.find?_eq_none]
    simpa only [Entry.keyed_iff] using others
  rw [find?, routes, List.find?_append, none, Option.none_or, List.find?_cons_of_pos]
  exact Entry.keyed_iff.mpr keyed

theorem path_found {e : Entry} (found : t.find? helper action = some e)
    (parameters : List Value) (query : Value) :
    t.path helper action parameters query = fillGiven e.path parameters query := by
  rw [Table.path, require, found]
  rfl

theorem path_unknown (parameters : List Value) :
    FailsWith "ROUTER_UNKNOWN_HELPER" (t.path helper action parameters .undefined) ↔
      ∀ e ∈ t.routes, ¬e.Keyed helper action := by
  rw [← find?_none]
  cases found : t.find? helper action with
  | some e =>
    rw [path_found found, fillGiven_fails]
    simp
  | none =>
    rw [Table.path, require, found]
    refine ⟨fun _ => rfl, fun _ => ?_⟩
    simp only
    split
    · exact ⟨.router (.actionUnknown helper action), rfl, rfl⟩
    · exact ⟨.router (.helperUnknown helper t.name), rfl, rfl⟩

end Table

end ViewRouting.Router

namespace ViewRouting.Lexical
open Router Live Session

def ownPath? : Step → Option String
  | .operation (.add _ path _ _ _) => some path
  | .operation (.register _ declaration) => some declaration.path
  | _ => none

theorem asks_path {turn : Turn} {r : Registration} (asks : Asks turn r) :
    ownPath? turn.step = some r.path := by
  obtain ⟨step, met⟩ := turn
  match step with
  | .operation (.add verb path handler action given) =>
    obtain ⟨options, -, rfl⟩ := asks
    rfl
  | .operation (.register c declaration) =>
    obtain ⟨built, describes, -, rfl⟩ := asks
    obtain ⟨-, own, helper, -, -, -, rfl⟩ := describe_ok describes
    rfl
  | .scope .. | .operation (.pipeline ..) | .operation (.pipe _) | .operation (.qualify _)
  | .operation .inherited | .operation (.describe ..) | .operation .finish | .operation (.raise _)
  | .operation (.ask _) => cases asks

def Site.segments (s : Site) (own : String) : List String :=
  s.openings.flatMap (fun o => Path.segments o.path) ++ Path.segments own

theorem segments_path (s : Site) (own : String) : Path.segments (s.path own) = s.segments own := by
  apply Path.segments_ofSegments
  intro p hp
  rcases List.mem_append.mp hp with hp | hp
  · obtain ⟨o, -, hp⟩ := List.mem_flatMap.mp hp
    exact Path.segments_clean o.path p hp
  · exact Path.segments_clean own p hp

/-- In the table of a program no path is built where no route has the helper and the action. Else
the earliest one that has them is declared somewhere in the program, below the paths of scopes; the
segments of these paths and of its own say how many parameters it takes and where they go. -/
theorem helper_paths {name : String} {options : RouterOptions} {w : Workshop}
    {propagate : Bool} {steps : List Step} {before after : List Place} {site : Site}
    {met : Workshop} {t : Table} (started : Draft.start name options = .ok w.draft)
    (taken : bodyPlaces propagate .root steps w =
      before ++ ⟨site, ⟨.operation .finish, met⟩⟩ :: after)
    (built : Turn.outcome ⟨.operation .finish, met⟩ = .table t) (helper action : String) :
    (∀ parameters,
      Path.FailsWith "ROUTER_UNKNOWN_HELPER" (t.path helper action parameters .undefined) ↔
        ∀ e ∈ t.routes, ¬e.Keyed helper action) ∧
      ∀ {earlier later : List Entry} {e : Entry}, t.routes = earlier ++ e :: later →
        (∀ x ∈ earlier, ¬x.Keyed helper action) → e.Keyed helper action →
        ∃ p own, (before.filter Place.adds)[earlier.length]? = some p ∧
          ownPath? p.turn.step = some own ∧
          let texts := p.site.openings.flatMap (fun o => Path.segments o.path) ++
            Path.segments own
          e.path = "/" ++ Text.join "/" texts ∧ ∀ parameters,
            (Path.FailsWith "ROUTER_PARAM_MISMATCH"
                (t.path helper action parameters .undefined) ↔
              parameters.length ≠ texts.countP Path.takesParameter) ∧
            (parameters.length = texts.countP Path.takesParameter →
              (∀ v ∈ parameters, v.IsParameter) →
              ∃ filled, t.path helper action parameters .undefined =
                  .ok ("/" ++ Text.join "/" filled) ∧
                Path.Substitutes texts (parameters.map Value.text) filled) := by
  refine ⟨fun parameters => Table.path_unknown parameters, ?_⟩
  intro earlier later e routes others keyed
  have declared := table_places started taken built
  rw [routes] at declared
  have here : earlier.length < (before.filter Place.adds).length := by
    rw [declared.length_eq, List.length_append, List.length_cons]
    omega
  obtain ⟨-, r, own, text, asks, -, -, same⟩ := declared.get here (by simp)
  generalize placed : (before.filter Place.adds).get ⟨earlier.length, here⟩ = p at asks same
  have own : e.path = p.site.path r.path := by
    simpa [Reading.entry] using congrArg Entry.path same
  have segments : Path.segments e.path = p.site.segments r.path := by
    rw [own, segments_path]
  have names : (Path.dynamicNames e.path).length =
      (p.site.segments r.path).countP Path.takesParameter := by
    rw [Path.dynamicNames, Path.pattern, segments, Path.names_length]
  have path := Table.path_found (Table.find?_earliest routes others keyed)
  refine ⟨p, r.path, ?_, asks_path asks, own, ?_⟩
  · rw [List.getElem?_eq_getElem here]
    exact congrArg some placed
  intro parameters
  rw [path]
  constructor
  · rw [Path.fillGiven_fails, names]
    simp only [true_and]
    rfl
  · intro count typed
    refine ⟨_, (Path.fillGiven_ok typed (.inl rfl)).mpr ⟨names.trans count.symm, rfl⟩, ?_⟩
    rw [Path.pattern, segments]
    apply Path.fillSegments_substitutes
    rw [List.length_map]
    exact count

/-- Takes parameters in its scopes and behind them. -/
def filesProgram : List Step :=
  let get (path handler : String) : Step :=
    .operation (.add "GET" path handler "index" .undefined)
  [.scope "/:org" (.string "Org") false [
      get "/" "PageController",
      .scope "files//*rest/" (.record [("as", .string "no")]) false [],
      .scope "/files/*rest" (.record [("as", .string "file")]) true [
        .operation (.raise "boom"),
        get "/late" "LateController"],
      .scope "/files//*rest/" (.record [("as", .string "file")]) true [
        get "/at/:line" "ViewController"]],
    .operation .finish]

theorem helper_paths_nested :
    ∃ before site met after t earlier e later,
      Draft.start "App.Router" {} = .ok freshWorkshop.draft ∧
      bodyPlaces false .root filesProgram freshWorkshop =
        before ++ ⟨site, ⟨.operation .finish, met⟩⟩ :: after ∧
      Turn.outcome ⟨.operation .finish, met⟩ = .table t ∧
      t.routes = earlier ++ e :: later ∧ (∀ x ∈ earlier, ¬x.Keyed "file_view" "index") ∧
      e.Keyed "file_view" "index" ∧
      Path.FailsWith "ROUTER_UNKNOWN_HELPER" (t.path "file_view" "show" [] .undefined) ∧
      Path.FailsWith "ROUTER_PARAM_MISMATCH"
        (t.path "file_view" "index" [.string "a"] .undefined) ∧
      t.path "file_view" "index" [.string "a b", .string "x/y z", .number (.ofNat 7)] .undefined =
        .ok "/a%20b/files/x/y%20z/at/7" ∧
      ∃ filled, "/a%20b/files/x/y%20z/at/7" = "/" ++ Text.join "/" filled ∧
        Path.Substitutes [":org", "files", "*rest", "at", ":line"] ["a b", "x/y z", "7"]
          filled := by
  have started : Draft.start "App.Router" {} = .ok freshWorkshop.draft := if_pos (by decide)
  let key (action : String) (e : Entry) : Bool := e.isHelpedBy "file_view" && e.action == action
  let parameters : List Value := [.string "a b", .string "x/y z", .number (.ofNat 7)]
  have last : ((bodyPlaces false .root filesProgram freshWorkshop)[7]?.bind fun p =>
      p.turn.taken?.map fun t => (t.routes.map fun e => (key "index" e, key "show" e),
        (t.path "file_view" "index" parameters .undefined).toOption)) =
        some ([(false, false), (true, false)], some "/a%20b/files/x/y%20z/at/7") := by
    decide +kernel
  have second : ((((bodyPlaces false .root filesProgram freshWorkshop).take 7).filter
      Place.adds)[1]?.map fun p => (p.site.openings.map Opening.path,
        ownPath? p.turn.step)) = some (["/", "/:org", "/files//*rest/"], some "/at/:line") := by
    decide +kernel
  generalize places : bodyPlaces false .root filesProgram freshWorkshop = taken
    at last second ⊢
  obtain ⟨⟨site, step, met⟩, seventh, last⟩ := Option.bind_eq_some_iff.mp last
  have parted := parted_at seventh
  obtain ⟨t, table, answers⟩ := Option.map_eq_some_iff.mp last
  obtain ⟨keys, text⟩ := Prod.mk.inj answers
  obtain ⟨rfl, built⟩ := Turn.taken?_eq_some.mp table
  obtain ⟨first, rest, routes, other, keys⟩ := List.map_eq_cons_iff.mp keys
  obtain ⟨e, rest, rfl, keyed, keys⟩ := List.map_eq_cons_iff.mp keys
  obtain rfl := List.map_eq_nil_iff.mp keys
  obtain ⟨other, missing⟩ := Prod.mk.inj other
  obtain ⟨keyed, missing'⟩ := Prod.mk.inj keyed
  have others : ∀ x ∈ [first], ¬x.Keyed "file_view" "index" := by
    rw [List.forall_mem_singleton, ← Entry.keyed_iff]
    exact Bool.eq_false_iff.mp other
  obtain ⟨-, found⟩ := helper_paths started (places.trans parted) built "file_view" "index"
  have parts : t.routes = [first] ++ e :: [] := routes
  obtain ⟨p, own, placed, declares, -, fills⟩ :=
    found parts others (Entry.keyed_iff.mp keyed)
  have unknown := (helper_paths started (places.trans parted) built "file_view" "show").1 []
  have texts : p.site.openings.flatMap (fun o => Path.segments o.path) ++ Path.segments own =
      [":org", "files", "*rest", "at", ":line"] := by
    have at_second := second
    rw [List.length_singleton] at placed
    rw [placed, Option.map_some, declares] at at_second
    obtain ⟨paths, own⟩ := Prod.mk.inj (Option.some.inj at_second)
    rw [← List.flatMap_map, paths, Option.some.inj own]
    decide +kernel
  rw [texts] at fills
  refine ⟨_, site, met, _, t, [first], e, [], started, parted, built, parts, others,
    Entry.keyed_iff.mp keyed, unknown.mpr ?_, (fills _).1.mpr (by decide), ?_⟩
  · rw [routes]
    intro x hx
    rw [← Entry.keyed_iff]
    simp only [List.mem_cons, List.not_mem_nil, or_false] at hx
    rcases hx with rfl | rfl
    · exact Bool.eq_false_iff.mp missing
    · exact Bool.eq_false_iff.mp missing'
  · obtain ⟨filled, path, substitutes⟩ := (fills parameters).2 (by decide) (by
      simp [parameters, Value.IsParameter, Value.IsText])
    rw [path] at text
    have written : "/" ++ Text.join "/" filled = "/a%20b/files/x/y%20z/at/7" :=
      Option.some.inj text
    have number : (Value.number (.ofNat 7)).text = "7" := by decide +kernel
    refine ⟨path.trans (congrArg Except.ok written), filled, written.symm, ?_⟩
    rw [← number]
    exact substitutes

end ViewRouting.Lexical
