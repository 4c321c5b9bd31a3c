import ViewRouting.Proofs.HelperPaths
import ViewRouting.Proofs.LiveRoutes

/-! Looking up live routes. A live route without an action stands in the table under its view, in
the place of an action. The two cannot be taken for each other: whatever the scopes around are, a
view is an identifier and starts with a capital letter, and no action does. So live routes under one
key say the same, and where no other route has the key the first of them may stand for them all. -/

namespace ViewRouting.Naming

theorem not_isDotted_of_isHelper {s : String} (h : isHelper s) : isDotted s = false := by
  obtain ⟨c, cs, chars, first, rest⟩ := isHelper_iff.mp h
  have dot : '.' ∉ s.toList := by
    rw [chars, List.mem_cons, not_or]
    refine ⟨?_, fun hd => absurd (rest '.' hd) (by decide)⟩
    rintro rfl
    revert first
    decide
  have whole : segments s = [s] := Text.split_whole dot
  rw [isDotted, whole, List.all_cons, List.all_nil, Bool.and_true, isSegment, chars]
  have capital : c.isUpper = false := by
    rcases first with lower | rfl
    · apply Bool.eq_false_iff.mpr
      intro upper
      exact absurd (lower.symm.trans (not_isLower_upper upper)) (by decide)
    · rfl
  simp only [capital, Bool.false_and]

end ViewRouting.Naming

namespace ViewRouting.Lexical
open Naming Router Live Session

theorem LiveRoute.same_key {c c' : Conventions} {s s' : Site}
    {declaration declaration' : Declaration} {d d' : Descriptor} {e e' : Entry}
    (route : LiveRoute c s declaration d e)
    (route' : LiveRoute c' s' declaration' d' e') (written : declaration.Written)
    (written' : declaration'.Written) (same : e'.action = e.action) :
    (∃ a, d.action = some (.string a) ∧ d'.action = some (.string a)) ∨
      d.action = none ∧ d'.action = none ∧ d'.targetView = d.targetView := by
  -- An action and a view: an action is a helper name, which no view is.
  have apart {a view : String} (helper : isHelper a) (dotted : isDotted view) : a ≠ view := by
    rintro rfl
    rw [not_isDotted_of_isHelper helper] at dotted
    cases dotted
  have addressed := route.addressed
  have addressed' := route'.addressed
  rw [same] at addressed'
  rcases written with none | ⟨a, given⟩ <;> rcases written' with none' | ⟨a', given'⟩
  · rw [route.action, none] at addressed
    rw [route'.action, none'] at addressed'
    exact .inr ⟨route.action.trans none, route'.action.trans none', addressed'.symm.trans addressed⟩
  · rw [route.action, none] at addressed
    rw [route'.action, given'] at addressed'
    exact absurd (addressed'.symm.trans addressed) (apart (route'.valid a' given') route.dotted)
  · rw [route.action, given] at addressed
    rw [route'.action, none'] at addressed'
    exact absurd (addressed.symm.trans addressed') (apart (route.valid a given) route'.dotted)
  · rw [route.action, given] at addressed
    rw [route'.action, given'] at addressed'
    have text : a' = a := addressed'.symm.trans addressed
    exact .inl ⟨a, route.action.trans given, by rw [route'.action, given', text]⟩

section Table
variable {name : String} {options : RouterOptions} {w : Workshop} {propagate : Bool}
  {steps : List Step} {before after : List Place} {site : Site} {met : Workshop} {t : Table}

theorem route_origin (typed : BodyTyped steps)
    (started : Draft.start name options = .ok w.draft)
    (taken : bodyPlaces propagate .root steps w =
      before ++ ⟨site, ⟨.operation .finish, met⟩⟩ :: after)
    (built : Turn.outcome ⟨.operation .finish, met⟩ = .table t) {e : Entry}
    (member : e ∈ t.routes) :
    ∃ p ∈ before,
      (∃ verb path handler action given,
        p.turn.step = .operation (.add verb path handler action given) ∧
          p.turn.outcome = .entry e) ∨
      ∃ c declaration d, p.turn.step = .operation (.register c declaration) ∧
        p.turn.outcome = .descriptor d ∧ LiveRoute c p.site declaration d e := by
  have declared := table_places started taken built
  obtain ⟨i, hi, rfl⟩ := List.getElem_of_mem member
  have here : i < (before.filter Place.adds).length := by
    rw [declared.length_eq]
    exact hi
  have declares := declared.get here hi
  obtain ⟨inside, adds⟩ := List.mem_filter.mp (List.get_mem _ ⟨i, here⟩)
  generalize (before.filter Place.adds).get ⟨i, here⟩ = p at declares inside adds
  refine ⟨p, inside, ?_⟩
  have within : p ∈ bodyPlaces propagate .root steps w := by
    rw [taken]
    exact List.mem_append_left _ inside
  cases step : p.turn.step with
  | scope =>
    rw [Place.adds, Turn.adds, step] at adds
    cases adds
  | operation operation =>
    cases operation with
    | add verb path handler action given =>
      have returned := declares.1
      rw [Turn.Returned, step] at returned
      exact .inl ⟨verb, path, handler, action, given, rfl, returned⟩
    | register c declaration =>
      obtain ⟨formed, l, standing⟩ := places_stand started within
      obtain ⟨named, stepTyped⟩ :=
        bodyPlaces_typed Site.root_named propagate steps typed w p within
      rw [step, Step.Typed] at stepTyped
      obtain ⟨d, outcome, route⟩ :=
        live_route stepTyped.normal formed named standing step declares
      exact .inr ⟨c, declaration, d, rfl, outcome, route⟩
    | _ =>
      rw [Place.adds, Turn.adds, step] at adds
      cases adds

/-- Two live statements that succeeded and have the same helper and action in the table were
declared with the same action, or both without one and for the same view. So the lookup of a live
route finds one with its action, or with its view, as long as no other kind of route has its key. -/
theorem live_lookup (typed : BodyTyped steps)
    (started : Draft.start name options = .ok w.draft)
    (taken : bodyPlaces propagate .root steps w =
      before ++ ⟨site, ⟨.operation .finish, met⟩⟩ :: after)
    (built : Turn.outcome ⟨.operation .finish, met⟩ = .table t)
    (written : ∀ p ∈ before, ∀ c declaration,
      p.turn.step = .operation (.register c declaration) → declaration.Written)
    {p : Place} {earlier later : List Place} (parted : before = earlier ++ p :: later)
    {c : Conventions} {declaration : Declaration}
    (step : p.turn.step = .operation (.register c declaration))
    {d : Descriptor} (described : p.turn.outcome = .descriptor d) :
    ∃ e, t.routes[(earlier.filter Place.adds).length]? = some e ∧
      (∀ {p' : Place} {earlier' later' : List Place} {c' : Conventions}
        {declaration' : Declaration} {d' : Descriptor} {e' : Entry},
        before = earlier' ++ p' :: later' →
        p'.turn.step = .operation (.register c' declaration') →
        p'.turn.outcome = .descriptor d' →
        t.routes[(earlier'.filter Place.adds).length]? = some e' →
        e'.helper = e.helper → e'.action = e.action →
        (∃ a, declaration.action = some (.string a) ∧ declaration'.action = some (.string a)) ∨
          declaration.action = none ∧ declaration'.action = none ∧
            p'.site.qualify declaration'.view = p.site.qualify declaration.view) ∧
      ((∀ q ∈ before, ∀ {verb path handler action given x},
          q.turn.step = .operation (.add verb path handler action given) →
          q.turn.outcome = .entry x → ¬(x.helper = e.helper ∧ x.action = e.action)) →
        ∃ helper found stored, e.helper = .string helper ∧
          t.find? helper e.action = some found ∧ (liveTarget? found).isSome ∧
          livePublic? found = some stored ∧ stored.action = declaration.action ∧
          (declaration.action = none → stored.view = p.site.qualify declaration.view)) := by
  have own (p : Place) (earlier later : List Place) (parted : before = earlier ++ p :: later) :
      p ∈ before := by
    rw [parted]
    simp
  have shape := written p (own p earlier later parted) c declaration step
  obtain ⟨e, found, route⟩ := live_route_at typed started taken built parted step described
  refine ⟨e, found, ?_, ?_⟩
  · intro p' earlier' later' c' declaration' d' e' parted' step' described' found' _ same
    obtain ⟨other, at_place, route'⟩ :=
      live_route_at typed started taken built parted' step' described'
    obtain rfl : e' = other := Option.some.inj (found'.symm.trans at_place)
    have shape' := written p' (own p' earlier' later' parted') c' declaration' step'
    rcases route.same_key route' shape shape' same with ⟨a, given, given'⟩ | ⟨none, none', view⟩
    · exact .inl ⟨a, route.action.symm.trans given, route'.action.symm.trans given'⟩
    · refine .inr ⟨route.action.symm.trans none, route'.action.symm.trans none', ?_⟩
      rw [← route.view, ← route'.view, view]
  · intro alone
    obtain ⟨stems, helper, -, -, joined⟩ := route.helper
    have member : e ∈ t.routes := List.mem_of_getElem? found
    cases search : t.find? (Text.join "_" (stems ++ [helper])) e.action with
    | none => exact absurd ⟨joined, rfl⟩ (Table.find?_none.mp search e member)
    | some x =>
      obtain ⟨listed, keyed⟩ := Table.find?_some search
      have key : x.helper = e.helper ∧ x.action = e.action := ⟨keyed.1.trans joined.symm, keyed.2⟩
      obtain ⟨q, inside, origin⟩ :=
        route_origin typed started taken built listed
      rcases origin with ⟨verb, path, handler, action, given, added, returned⟩ |
        ⟨c', declaration', d', registered, -, route'⟩
      · exact absurd key (alone q inside added returned)
      · have shape' := written q inside c' declaration' registered
        obtain ⟨target, stored⟩ := route'.readings shape'
        refine ⟨_, x, _, joined, search, Option.isSome_of_eq_some target, stored, ?_⟩
        rcases route.same_key route' shape shape' key.2 with
          ⟨a, given, given'⟩ | ⟨none, none', view⟩
        · have action : declaration.action = some (.string a) := route.action.symm.trans given
          refine ⟨given'.trans action.symm, ?_⟩
          intro none
          cases action.symm.trans none
        · refine ⟨none'.trans (none.symm.trans route.action), ?_⟩
          intro _
          rw [← route.view]
          exact view

end Table

/-- Declares one view twice, once by its name in a scope and once, by another compiler, by its full
name. -/
def sharedProgram : List Step :=
  let live (c : Conventions) (path view : String) (action : Value) : Step :=
    .operation (.register c (.ofArguments path view action .undefined))
  [.scope "/admin" (.string "Admin") false [
      live {} "/users" "UserLive" .undefined,
      live {} "/log" "LogLive.Index" (.string "index")],
    .operation (.add "GET" "/" "PageController" "index" .undefined),
    live adminConventions "/all" "Admin.UserLive" .undefined,
    .operation .finish]

theorem sharedProgram_written {c : Conventions} {declaration : Declaration}
    (listed : .register c declaration ∈ bodyOperations sharedProgram) : declaration.Written := by
  simp only [sharedProgram, bodyOperations, Step.operations, List.append_nil, List.cons_append,
    List.nil_append, List.mem_cons, List.not_mem_nil, or_false, reduceCtorEq, false_or,
    Operation.register.injEq] at listed
  rcases listed with ⟨-, rfl⟩ | ⟨-, rfl⟩ | ⟨-, rfl⟩ <;> exact Declaration.ofArguments_written ..

theorem live_lookup_shared :
    ∃ before site met after t earlier p later c declaration d e found stored,
      BodyTyped sharedProgram ∧
      Draft.start "App.Router" {} = .ok freshWorkshop.draft ∧
      bodyPlaces false .root sharedProgram freshWorkshop =
        before ++ ⟨site, ⟨.operation .finish, met⟩⟩ :: after ∧
      Turn.outcome ⟨.operation .finish, met⟩ = .table t ∧
      (∀ p ∈ before, ∀ c declaration,
        p.turn.step = .operation (.register c declaration) → declaration.Written) ∧
      before = earlier ++ p :: later ∧ p.turn.step = .operation (.register c declaration) ∧
      p.turn.outcome = .descriptor d ∧ t.routes[3]? = some e ∧
      e.path = "/all" ∧ e.helper = .string "live" ∧ e.action = "Admin.UserLive" ∧
      (∀ q ∈ before, ∀ {verb path handler action given x},
        q.turn.step = .operation (.add verb path handler action given) →
        q.turn.outcome = .entry x → ¬(x.helper = e.helper ∧ x.action = e.action)) ∧
      t.find? "live" e.action = some found ∧ found.path = "/admin/users" ∧
      livePublic? found = some stored ∧ stored.action = none ∧
      stored.view = p.site.qualify declaration.view := by
  -- The second one is asked for, and the first one stands for it.
  have typed : BodyTyped sharedProgram := by
    simp only [sharedProgram, BodyTyped, Step.Typed, Operation.Typed]
    exact ⟨⟨.inl ⟨"Admin", rfl⟩, Conventions.normalized_default, Conventions.normalized_default,
      trivial⟩, .inl rfl, adminConventions_normalized, trivial, trivial⟩
  have started : Draft.start "App.Router" {} = .ok freshWorkshop.draft := if_pos (by decide)
  have last : ((bodyPlaces false .root sharedProgram freshWorkshop)[5]?.bind fun p =>
      p.turn.taken?.map fun t =>
        (t.routes[3]?.map fun e => [e.path, e.helper.text, e.action],
          (t.find? "live" "Admin.UserLive").map Entry.path)) =
        some (some ["/all", "live", "Admin.UserLive"], some "/admin/users") := by
    decide +kernel
  have live : (((bodyPlaces false .root sharedProgram freshWorkshop).take 5)[4]?.bind fun p =>
      p.turn.step.live?.bind fun live =>
        p.turn.outcome.descriptor?.map fun _ => live.2.action.isNone) = some true := by
    decide +kernel
  have position : ((((bodyPlaces false .root sharedProgram freshWorkshop).take 5).take 4).filter
      Place.adds).length = 3 := by
    decide +kernel
  have others : (((bodyPlaces false .root sharedProgram freshWorkshop).take 5).all fun p =>
      (p.turn.outcome).added?.all fun x => x.action != "Admin.UserLive") = true := by
    decide +kernel
  generalize places : bodyPlaces false .root sharedProgram freshWorkshop = taken
    at last live position others ⊢
  obtain ⟨⟨site, step, met⟩, finish, last⟩ := Option.bind_eq_some_iff.mp last
  obtain ⟨p, fourth, live⟩ := Option.bind_eq_some_iff.mp live
  have parted := parted_at finish
  have inside := parted_at fourth
  have written : ∀ q ∈ taken.take 5, ∀ c declaration,
      q.turn.step = .operation (.register c declaration) → declaration.Written := by
    intro q listed c declaration step
    have member : q ∈ bodyPlaces false .root sharedProgram freshWorkshop := by
      rw [places]
      exact List.mem_of_mem_take listed
    exact sharedProgram_written (places_operations started member step)
  obtain ⟨t, table, routes⟩ := Option.map_eq_some_iff.mp last
  obtain ⟨rfl, built⟩ := Turn.taken?_eq_some.mp table
  obtain ⟨⟨c, declaration⟩, declared, live⟩ := Option.bind_eq_some_iff.mp live
  obtain ⟨d, described, live⟩ := Option.map_eq_some_iff.mp live
  have step := Step.live?_eq_some.mp declared
  have described := Outcome.descriptor?_eq_some.mp described
  have none := Option.isNone_iff_eq_none.mp live
  obtain ⟨listed, sought⟩ := Prod.mk.inj routes
  obtain ⟨e, at_place, -, first⟩ := live_lookup typed started (places.trans parted) built written
    inside step described
  rw [position] at at_place
  rw [at_place] at listed
  simp only [Option.map_some, Option.some.injEq, List.cons.injEq, and_true] at listed
  obtain ⟨path, text, action⟩ := listed
  have alone : ∀ q ∈ taken.take 5, ∀ {verb path handler action given x},
      q.turn.step = .operation (.add verb path handler action given) →
      q.turn.outcome = .entry x → ¬(x.helper = e.helper ∧ x.action = e.action) := by
    intro q listed verb path handler action' given x hq returned same
    have other := List.all_eq_true.mp others q listed
    rw [returned] at other
    exact bne_iff_ne.mp other (same.2.trans action)
  obtain ⟨helper, found, stored, own, search, -, read, without, view⟩ := first alone
  obtain rfl : helper = "live" := by
    rw [own] at text
    exact text
  rw [action] at search
  have found_path : found.path = "/admin/users" := by
    rw [search] at sought
    exact Option.some.inj sought
  exact ⟨_, site, met, _, t, _, p, _, c, declaration, d, e, found, stored, typed, started,
    parted, built, written, inside, step, described, at_place, path, own, action,
    alone, action.symm ▸ search, found_path, read, without.trans none, view none⟩

end ViewRouting.Lexical
