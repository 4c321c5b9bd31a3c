import ViewRouting.Proofs.HelperNames
import ViewRouting.Proofs.Histories
import ViewRouting.Proofs.Lexical.Agreement

/-! Where the routes of a table were declared. The turns of a history are listed with the sites that
their steps stand at, which are read off the text and the outcomes of the steps in front. Every
route of a table belongs to the place of the step that declared it, in order, and it is what the
text at that place says; what the draft has been through in the meantime is not asked for. -/

namespace ViewRouting.Lexical
open Naming Router Live Session

structure Place where
  site : Site
  turn : Turn

def Place.adds (p : Place) : Bool :=
  p.turn.adds

/-- The site of the steps behind a step in the same body. -/
def siteBehind (s : Site) (step : Step) (w : Workshop) : Site :=
  match step with
  | .operation operation =>
    if (step.run w).1.fault?.isNone then s.piping (piped operation) else s
  | .scope .. => s

mutual
def stepPlaces (s : Site) : Step → Workshop → List Place
  | .operation operation, w => [⟨s, ⟨.operation operation, w⟩⟩]
  | .scope path options propagate body, w =>
    ⟨s, ⟨.scope path options propagate body, w⟩⟩ ::
      match Opening.read path options, Drafting.enterScope path options w with
      | .ok o, .ok _ w => bodyPlaces propagate (s.within o) body w
      | _, _ => []

/-- The places of the steps that are taken of a body, which stands at a site itself. -/
def bodyPlaces (propagate : Bool) (s : Site) :
    List Step → Workshop → List Place
  | [], _ => []
  | step :: rest, w =>
    stepPlaces s step w ++
      match propagate, (step.run w).1.fault? with
      | true, some _ => []
      | _, _ => bodyPlaces propagate (siteBehind s step w) rest (step.run w).2
end

/-! The places are those of the history, and the draft that a step met stands where the text
says. -/

theorem siteBehind_readStep (h : Heading) {s : Site} (formed : s.Formed)
    (step : Step) (l : Ledger) :
    siteBehind s step (s.workshop h l) = (readStep h s step l).2.1 := by
  cases step with
  | scope path options propagate body =>
    rw [readStep]
    cases Reading.openScope h s path options l with
    | error fault l => rfl
    | ok o l =>
      simp only
      split <;> rfl
  | operation operation =>
    rw [siteBehind, run_readStep h _ formed, readStep]
    cases ran : Reading.perform h s operation l with
    | error fault l => rfl
    | ok outcome l' =>
      cases operation with
      | pipe names =>
        rw [Reading.perform, bind_run] at ran
        split at ran
        · cases ran
          rfl
        · cases ran
      | _ => simp [piped]

mutual
theorem stepPlaces_history (h : Heading) {s : Site} (formed : s.Formed)
    (step : Step) (l : Ledger) :
    (stepPlaces s step (s.workshop h l)).map Place.turn = step.history (s.workshop h l) ∧
      ∀ p ∈ stepPlaces s step (s.workshop h l),
        p.site.Formed ∧ ∃ l, p.turn.met = p.site.workshop h l := by
  cases step with
  | operation operation =>
    rw [stepPlaces, Step.history]
    exact ⟨rfl, List.forall_mem_singleton.mpr ⟨formed, l, rfl⟩⟩
  | scope path options propagate body =>
    rw [stepPlaces, Step.history, List.map_cons, List.forall_mem_cons, enterScope_workshop]
    cases opened : Reading.openScope h s path options l with
    | error fault l' =>
      cases Opening.read path options <;> exact ⟨rfl, ⟨formed, l, rfl⟩, List.forall_mem_nil _⟩
    | ok o l' =>
      have read := read_of_openScope opened
      have inner := bodyPlaces_history h (formed_within formed read) propagate body l'
      simp only [read]
      rw [inner.1]
      exact ⟨rfl, ⟨formed, l, rfl⟩, inner.2⟩

theorem bodyPlaces_history (h : Heading) {s : Site} (formed : s.Formed)
    (propagate : Bool) (steps : List Step) (l : Ledger) :
    (bodyPlaces propagate s steps (s.workshop h l)).map Place.turn =
        bodyHistory propagate steps (s.workshop h l) ∧
      ∀ p ∈ bodyPlaces propagate s steps (s.workshop h l),
        p.site.Formed ∧ ∃ l, p.turn.met = p.site.workshop h l := by
  cases steps with
  | nil =>
    rw [bodyPlaces, bodyHistory]
    exact ⟨rfl, List.forall_mem_nil _⟩
  | cons step rest =>
    have first := stepPlaces_history h formed step l
    have behind := siteBehind_readStep h formed step l
    have ran := run_readStep h step formed l
    obtain ⟨names, site⟩ := readStep_site h s step l
    rw [site] at behind ran
    have next := bodyPlaces_history h (formed.piping names) propagate rest
      (readStep h s step l).2.2
    have taken : (bodyPlaces propagate (s.piping names) rest (step.run (s.workshop h l)).2).map
        Place.turn = bodyHistory propagate rest (step.run (s.workshop h l)).2 := by
      rw [ran]
      exact next.1
    rw [bodyPlaces.eq_def, bodyHistory.eq_def]
    simp only [behind]
    cases propagate with
    | false =>
      rw [List.map_append, first.1, taken, List.forall_mem_append, ran]
      exact ⟨rfl, first.2, next.2⟩
    | true =>
      cases (step.run (s.workshop h l)).1.fault? with
      | none =>
        simp only
        rw [List.map_append, first.1, taken, List.forall_mem_append, ran]
        exact ⟨rfl, first.2, next.2⟩
      | some fault =>
        simp only [List.append_nil]
        exact first
end

/-! What a turn adds. -/

/-- The registration that a turn asks for. A live statement is described before its route is. -/
def Asks (turn : Turn) (r : Registration) : Prop :=
  match turn.step with
  | .operation (.add verb path handler action given) =>
    ∃ options, AddOptions.ofValue given = .ok options ∧ r = ⟨verb, path, handler, action, options⟩
  | .operation (.register c declaration) =>
    ∃ built, describe c (.ofDraft turn.met.draft) declaration = .ok built ∧
      turn.outcome = .descriptor built.value ∧ r = built.value.registration c
  | _ => False

theorem asks_of_returned {turn : Turn} {e : Entry} (adds : turn.adds)
    (returned : turn.Returned e) : ∃ r, Asks turn r ∧ turn.met.draft.accept r = .ok e := by
  obtain ⟨step, met⟩ := turn
  match step with
  | .operation (.add verb path handler action given) =>
    simp only [Turn.Returned, Turn.outcome, run_operation] at returned
    rw [recorded, Operation.perform, bind_run] at returned
    rcases Drafting.addGiven_cases verb path handler action given met with
      ⟨fault, journal, h⟩ | ⟨options, e', journal, read, accepted, h⟩
    · rw [h] at returned
      cases returned
    · rw [h] at returned
      cases returned
      exact ⟨_, ⟨options, read, rfl⟩, accepted⟩
  | .operation (.register c declaration) =>
    obtain ⟨descriptor, described, added, outcome, described_ok, added_ok⟩ := returned
    rcases describeIn_cases c declaration met with
      ⟨fault, journal, h⟩ | ⟨built, journal, describes, h⟩
    · cases h.symm.trans described_ok
    · cases h.symm.trans described_ok
      rcases Drafting.add_cases (built.value.registration c) { met with journal := journal } with
        ⟨fault, journal, h⟩ | ⟨e', journal, accepted, h⟩
      · cases h.symm.trans added_ok
      · cases h.symm.trans added_ok
        exact ⟨_, ⟨built, describes, outcome, rfl⟩, accepted⟩
  | .scope .. | .operation (.pipeline ..) | .operation (.pipe _) | .operation (.qualify _)
  | .operation .inherited | .operation (.describe ..) | .operation .finish | .operation (.raise _)
  | .operation (.ask _) => cases adds

theorem accept_workshop {h : Heading} {s : Site} (formed : s.Formed) {l : Ledger}
    {r : Registration} {e : Entry} (accepted : (s.draft h l).accept r = .ok e) :
    ∃ own text, Reading.ownHelper h r.options.helper r.handler = .ok own ∧
      readHelper own = .ok text ∧
      e = Reading.entry s r.verb r.path r.handler r.action own r.options := by
  obtain ⟨-, -, own, helper, given, under, rfl⟩ := Draft.accept_ok.mp accepted
  have stem : helperUnder s.frame.stem own = .ok helper := under
  rw [Site.helperUnder_frame] at stem
  obtain ⟨text, read, rfl⟩ := map_ok.mp stem
  have path : Path.join (s.draft h l).current.path r.path = s.path r.path := s.frame_path r.path
  have qualify : (s.draft h l).qualify r.handler = s.qualify r.handler :=
    s.frame_qualify formed r.handler
  refine ⟨own, text, given, read, ?_⟩
  rw [Draft.entry, path, qualify, draft_pipes]
  rfl

/-- The route that the turn at a place has returned, which is what the text says there. -/
def Place.Declares (h : Heading) (p : Place) (e : Entry) : Prop :=
  p.turn.Returned e ∧ ∃ r own text, Asks p.turn r ∧
    Reading.ownHelper h r.options.helper r.handler = .ok own ∧ readHelper own = .ok text ∧
    e = Reading.entry p.site r.verb r.path r.handler r.action own r.options

theorem root_workshop {name : String} {options : RouterOptions} {w : Workshop}
    (started : Draft.start name options = .ok w.draft) :
    Site.root.workshop ⟨name, options.handlerSuffix⟩ { journal := w.journal } = w := by
  obtain ⟨draft, journal⟩ := w
  obtain rfl : draft = _ := start_ok started
  rw [Site.workshop_root]

section Table
variable {name : String} {options : RouterOptions} {w : Workshop} {propagate : Bool}
  {steps : List Step} {before after : List Place} {site : Site} {met : Workshop} {t : Table}

theorem places_history (started : Draft.start name options = .ok w.draft) :
    (bodyPlaces propagate .root steps w).map Place.turn = bodyHistory propagate steps w ∧
      ∀ p ∈ bodyPlaces propagate .root steps w,
        p.site.Formed ∧ ∃ l, p.turn.met = p.site.workshop ⟨name, options.handlerSuffix⟩ l := by
  have places := bodyPlaces_history ⟨name, options.handlerSuffix⟩ Site.root_formed propagate
    steps { journal := w.journal }
  rwa [root_workshop started] at places

theorem places_stand (started : Draft.start name options = .ok w.draft) {p : Place}
    (taken : p ∈ bodyPlaces propagate .root steps w) :
    p.site.Formed ∧ ∃ l, p.turn.met = p.site.workshop ⟨name, options.handlerSuffix⟩ l :=
  (places_history started).2 p taken

theorem places_operations (started : Draft.start name options = .ok w.draft) {p : Place}
    (taken : p ∈ bodyPlaces propagate .root steps w) {operation : Operation}
    (step : p.turn.step = .operation operation) : operation ∈ bodyOperations steps := by
  have turn := List.mem_map_of_mem (f := Place.turn) taken
  rw [(places_history started).1] at turn
  exact bodyHistory_operations propagate steps w p.turn turn step

theorem table_places (started : Draft.start name options = .ok w.draft)
    (taken : bodyPlaces propagate .root steps w =
      before ++ ⟨site, ⟨.operation .finish, met⟩⟩ :: after)
    (built : Turn.outcome ⟨.operation .finish, met⟩ = .table t) :
    List.Forall₂ (Place.Declares ⟨name, options.handlerSuffix⟩)
      (before.filter Place.adds) t.routes := by
  have places := @places_history name options w propagate steps started
  rw [taken, List.map_append, List.map_cons] at places
  have leads : Leads w.draft (bodyHistory propagate steps w ++ [])
      (runBody propagate steps w).2.draft :=
    bodyHistory_leads propagate steps w (.done _)
  rw [List.append_nil, ← places.1] at leads
  obtain ⟨-, handed, -⟩ := finish_table built
  obtain ⟨es, appended, returned⟩ := leads.part.1.entries
  have routes : t.routes = es := by
    rw [handed, appended, start_ok started, List.nil_append]
  have turns : (before.map Place.turn).filter Turn.adds =
      (before.filter Place.adds).map Place.turn :=
    List.filter_map
  rw [turns, List.forall₂_map_left_iff, ← routes] at returned
  have added : ∀ p ∈ before.filter Place.adds,
      p.turn.adds ∧ p.site.Formed ∧
        ∃ l, p.turn.met = p.site.workshop ⟨name, options.handlerSuffix⟩ l := by
    intro p hp
    obtain ⟨hp, adds⟩ := List.mem_filter.mp hp
    exact ⟨adds, places.2 p (List.mem_append_left _ hp)⟩
  refine List.Forall₂.imp ?_ ((List.forall₂_and_left _ _).mpr ⟨added, returned⟩)
  rintro p e ⟨⟨adds, formed, l, standing⟩, returned⟩
  obtain ⟨r, asks, accepted⟩ := asks_of_returned adds returned
  rw [standing] at accepted
  obtain ⟨own, text, given, read, same⟩ := accept_workshop formed accepted
  exact ⟨returned, r, own, text, asks, given, read, same⟩

theorem parted_at {places : List Place} {n : Nat} {p : Place} (found : places[n]? = some p) :
    places = places.take n ++ p :: places.drop (n + 1) := by
  obtain ⟨_, rfl⟩ := List.getElem?_eq_some_iff.mp found
  rw [← List.drop_eq_getElem_cons, List.take_append_drop]

theorem route_at (started : Draft.start name options = .ok w.draft)
    (taken : bodyPlaces propagate .root steps w =
      before ++ ⟨site, ⟨.operation .finish, met⟩⟩ :: after)
    (built : Turn.outcome ⟨.operation .finish, met⟩ = .table t) {p : Place}
    {earlier later : List Place} (parted : before = earlier ++ p :: later)
    (adds : p.adds) :
    ∃ e, t.routes[(earlier.filter Place.adds).length]? = some e ∧
      p.Declares ⟨name, options.handlerSuffix⟩ e := by
  have declared := table_places started taken built
  rw [parted, List.filter_append, List.filter_cons_of_pos adds] at declared
  have more : (earlier.filter Place.adds).length < t.routes.length := by
    rw [← declared.length_eq, List.length_append, List.length_cons]
    omega
  have here := declared.get (by simp) more
  refine ⟨_, List.getElem?_eq_getElem more, ?_⟩
  simpa using here

end Table

/-! Sites of typed programs. -/

def Site.Named (s : Site) : Prop :=
  ∀ o ∈ s.openings, o.stem = .undefined ∨ IsHelperText o.stem

theorem Site.root_named : Site.root.Named := by
  intro o ho
  simp only [openings, root, List.reverse_singleton, List.mem_singleton] at ho
  exact .inl (ho ▸ rfl)

theorem Site.Named.piping {s : Site} (h : s.Named) (names : List String) :
    (s.piping names).Named := by
  simp only [Named, openings, Site.piping, List.mem_reverse, List.forall_mem_cons] at h ⊢
  exact h

theorem named_within {s : Site} (named : s.Named) {path : String} {options : Value}
    (typed : options.IsScopeOptions) {o : Opening} (read : Opening.read path options = .ok o) :
    (s.within o).Named := by
  intro i hi
  rw [Site.openings_within, List.mem_append, List.mem_singleton] at hi
  rcases hi with hi | rfl
  · exact named i hi
  · obtain ⟨_, -, read⟩ := bind_ok.mp read
    obtain ⟨asked, ha, read⟩ := bind_ok.mp read
    obtain ⟨_, -, read⟩ := bind_ok.mp read
    obtain ⟨_, hs, read⟩ := bind_ok.mp read
    cases read
    rcases (ScopeOptions.typed_ofValue typed ha).stem with h | ⟨stem, h⟩
    · exact .inl h
    · rw [h] at hs
      obtain ⟨text, read, -⟩ := map_ok.mp hs
      obtain ⟨given, valid⟩ := readHelper_ok.mp read
      cases given
      exact .inr ⟨stem, h, valid⟩

theorem Site.Named.stems {s : Site} (h : s.Named) :
    ∃ stems : List String, s.stems = stems.map .string ∧ ∀ n ∈ stems, Naming.isHelper n := by
  rw [Site.stems]
  rw [Named] at h
  generalize s.openings = openings at h ⊢
  induction openings with
  | nil => exact ⟨[], rfl, List.forall_mem_nil _⟩
  | cons o openings ih =>
    obtain ⟨first, rest⟩ := List.forall_mem_cons.mp h
    obtain ⟨stems, same, valid⟩ := ih rest
    rcases first with first | ⟨stem, first, helper⟩
    · refine ⟨stems, ?_, valid⟩
      rw [List.filterMap_cons_none (by rw [first]; rfl), same]
    · refine ⟨stem :: stems, ?_, List.forall_mem_cons.mpr ⟨helper, valid⟩⟩
      rw [List.filterMap_cons_some (by rw [first]; rfl), same]
      rfl

mutual
theorem stepPlaces_typed {s : Site} (named : s.Named) (step : Step)
    (typed : step.Typed) (w : Workshop) :
    ∀ p ∈ stepPlaces s step w, p.site.Named ∧ p.turn.step.Typed := by
  cases step with
  | operation operation =>
    rw [stepPlaces]
    exact List.forall_mem_singleton.mpr ⟨named, typed⟩
  | scope path options propagate body =>
    have inside := typed
    rw [Step.Typed] at inside
    rw [stepPlaces, List.forall_mem_cons]
    refine ⟨⟨named, typed⟩, ?_⟩
    split
    · next read opened =>
      exact bodyPlaces_typed (named_within named inside.1 read) propagate body inside.2 _
    · exact List.forall_mem_nil _

theorem bodyPlaces_typed {s : Site} (named : s.Named) (propagate : Bool)
    (steps : List Step) (typed : BodyTyped steps) (w : Workshop) :
    ∀ p ∈ bodyPlaces propagate s steps w, p.site.Named ∧ p.turn.step.Typed := by
  cases steps with
  | nil =>
    rw [bodyPlaces]
    exact List.forall_mem_nil _
  | cons step rest =>
    rw [BodyTyped] at typed
    have behind : (siteBehind s step w).Named := by
      rw [siteBehind.eq_def]
      split
      · split
        · exact named.piping _
        · exact named
      · exact named
    have first := stepPlaces_typed named step typed.1 w
    have next := bodyPlaces_typed behind propagate rest typed.2 (step.run w).2
    rw [bodyPlaces.eq_def]
    simp only
    split
    · rw [List.append_nil]
      exact first
    · exact List.forall_mem_append.mpr ⟨first, next⟩
end

end ViewRouting.Lexical
