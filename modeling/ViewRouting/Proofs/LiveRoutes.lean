import ViewRouting.Live.Registration
import ViewRouting.Proofs.Description
import ViewRouting.Proofs.Lexical.Places
import ViewRouting.Proofs.Records

/-! Live routes in a table. What a live statement is described as is stored with its route, and the
readers, which look at nothing but the route and go by the shape of what they find, read it back
whole. Routes of other kinds are taken for live ones only if they hold data under the live key. -/

namespace ViewRouting.Live
open Naming Router

/-- The action is a text, if there is one. -/
def Declaration.Written (d : Declaration) : Prop :=
  d.action = none ∨ ∃ a, d.action = some (.string a)

theorem Declaration.ofArguments_written (path view : String) (action options : Value) :
    (ofArguments path view action options).Written := by
  cases action <;> simp [ofArguments, Written]

/-! Stored data, and what is read from them. -/

theorem field_single (name : String) (v : Value) : Value.field [(name, v)] name = v := by
  rw [Value.field, Record.get?_cons, if_pos rfl]
  rfl

theorem field_absent {r : Record Value} {name : String} (h : name ∉ Record.names r) :
    Value.field r name = .undefined := by
  rw [Value.field, Record.get?_eq_none h]
  rfl

theorem DispatchOptions.fields (o : DispatchOptions) :
    Value.field o.toRecord "router" = .string o.router ∧
      Value.field o.toRecord "action" = actionValue o.action ∧
      Value.field o.toRecord "layout" = o.layout.toValue := by
  simp only [toRecord, Value.field, Record.get?_insertAll]
  exact ⟨rfl, rfl, rfl⟩

theorem DispatchOptions.field_inferredLayout (o : DispatchOptions) :
    Value.field o.toRecord "inferredLayout" = o.inferredLayout.toValue := by
  simp only [toRecord, Value.field, Record.get?_insertAll]
  rfl

/-- What the reader of the dispatch part looks at in the options of a route. -/
structure SeenOptions (fields : Record Value) : Prop where
  router : (Value.field fields "router").IsText
  layout : ∃ items, Value.field fields "layout" = .array items

theorem isArray_iff {v : Value} : isArray v ↔ ∃ items, v = .array items := by
  cases v <;> simp [isArray]

theorem isDispatchOptions_iff {v : Value} :
    isDispatchOptions v ↔ ∃ kind fields, v = .object kind fields ∧ SeenOptions fields := by
  have seen (fields : Record Value) : SeenOptions fields ↔
      (Value.field fields "router").IsText ∧ ∃ items, Value.field fields "layout" = .array items :=
    ⟨fun h => ⟨h.router, h.layout⟩, fun h => ⟨h.1, h.2⟩⟩
  cases v <;> simp [isDispatchOptions, Value.plainFields?, isText_iff, isArray_iff, seen]

theorem liveTarget?_iff {e : Entry} {target : LiveTarget} :
    liveTarget? e = some target ↔
      Value.field e.dispatchData dataKey = .array [.string target.view, target.options] ∧
        ∃ kind fields, target.options = .object kind fields ∧ SeenOptions fields := by
  rw [liveTarget?, ← isDispatchOptions_iff]
  split
  · next view options stored =>
    rw [stored]
    constructor
    · intro read
      split at read
      · next seen =>
        cases read
        exact ⟨rfl, seen⟩
      · cases read
    · rintro ⟨same, seen⟩
      cases same
      rw [if_pos seen]
  · next other =>
    constructor
    · rintro ⟨⟩
    · rintro ⟨stored, -⟩
      exact (other _ _ stored).elim

theorem livePublic?_iff {e : Entry} {found : PublicData} :
    livePublic? e = some found ↔
      Value.field e.publicData dataKey = .array [.string found.view, actionValue found.action] ∧
        (found.action = none ∨ ∃ a, found.action = some (.string a)) := by
  rw [livePublic?]
  obtain ⟨view, action⟩ := found
  constructor
  · intro read
    split at read
    · next stored =>
      cases read
      exact ⟨stored, .inl rfl⟩
    · next a stored =>
      cases read
      exact ⟨stored, .inr ⟨a, rfl⟩⟩
    · cases read
  · rintro ⟨stored, rfl | ⟨a, rfl⟩⟩ <;> rw [stored] <;> rfl

theorem liveTarget?_stored {e : Entry} {view : String} {o : DispatchOptions}
    (stored : e.dispatchData = [(dataKey, .array [.string view, .record o.toRecord])]) :
    liveTarget? e = some ⟨view, .record o.toRecord⟩ := by
  obtain ⟨router, -, layout⟩ := o.fields
  rw [liveTarget?_iff, stored, field_single]
  exact ⟨rfl, .ordinary, o.toRecord, rfl, ⟨_, router⟩, _, layout⟩

theorem livePublic?_stored {e : Entry} {view : String} {action : Option Value}
    (text : action = none ∨ ∃ a, action = some (.string a))
    (stored : e.publicData = [(dataKey, .array [.string view, actionValue action])]) :
    livePublic? e = some ⟨view, action⟩ := by
  rw [livePublic?_iff, stored, field_single]
  exact ⟨rfl, text⟩

theorem liveTarget?_none {e : Entry} (h : dataKey ∉ Record.names e.dispatchData) :
    liveTarget? e = none := by
  rw [liveTarget?, field_absent h]

theorem livePublic?_none {e : Entry} (h : dataKey ∉ Record.names e.publicData) :
    livePublic? e = none := by
  rw [livePublic?, field_absent h]

theorem describe_action {c : Conventions} {host : Host} {d : Declaration}
    {built : Observed Descriptor} (h : describe c host d = .ok built) {a : String}
    (given : d.action = some (.string a)) : isHelper a := by
  rw [describe_eq] at h
  obtain ⟨_, -, h⟩ := bind_ok.mp h
  obtain ⟨own, -, h⟩ := bind_ok.mp h
  obtain ⟨_, checked, -⟩ := bind_ok.mp h
  rw [given] at checked
  by_cases valid : isHelper a
  · exact valid
  · have refused : requireAction d.view (.string a) =
        (Value.string a).display >>= fun shown =>
          throw (.live (.actionNotSnakeCase d.view shown)) := by
      have read : readText (.string a) = .ok a := rfl
      rw [requireAction, read]
      simp only [bind, Except.bind, valid]
      rfl
    cases refused.symm.trans checked

end ViewRouting.Live

namespace ViewRouting.Lexical
open Naming Router Live Session

theorem Site.qualify_dotted {s : Site} (formed : s.Formed) {reference : String}
    (h : isDotted reference) : isDotted (s.qualify reference) := by
  rw [Site.qualify]
  cases hs : s.qualifiers with
  | nil => exact h
  | cons q rest =>
    have dotted : ∀ i ∈ q :: rest, isDotted i := hs ▸ formed.qualifiers_dotted
    apply concat_dotted
    · intro i hi
      rcases List.mem_append.mp hi with hi | hi
      · exact .inr (dotted i hi)
      · exact .inr (List.mem_singleton.mp hi ▸ h)
    · exact ⟨reference, by simp, isDotted_ne_empty h⟩

/-- The route of a live statement at a site. -/
structure LiveRoute (c : Conventions) (s : Site) (declaration : Declaration) (d : Descriptor)
    (e : Entry) : Prop where
  verb : e.verb = "GET"
  handler : e.handler = c.handler
  view : d.targetView = s.qualify declaration.view
  dotted : isDotted d.targetView
  action : d.action = declaration.action
  valid : ∀ a, declaration.action = some (.string a) → isHelper a
  addressed : e.action = (d.action.map Value.text).getD d.targetView
  helper : ∃ (stems : List String) (own : String), s.stems = stems.map .string ∧
    d.helper = .string own ∧ e.helper = .string (Text.join "_" (stems ++ [own]))
  own : d.privateData.options.action = d.action
  dispatchData : e.dispatchData = [(dataKey,
    .array [.string d.targetView, .record d.privateData.options.toRecord])]
  publicData : e.publicData = [(dataKey, .array [.string d.targetView, actionValue d.action])]

theorem LiveRoute.readings {c : Conventions} {s : Site} {declaration : Declaration}
    {d : Descriptor} {e : Entry} (route : LiveRoute c s declaration d e)
    (written : declaration.Written) :
    liveTarget? e = some ⟨d.targetView, .record d.privateData.options.toRecord⟩ ∧
      livePublic? e = some ⟨d.targetView, d.action⟩ := by
  have text : d.action = none ∨ ∃ a, d.action = some (.string a) := by
    rw [route.action]
    exact written
  exact ⟨liveTarget?_stored route.dispatchData, livePublic?_stored text route.publicData⟩

theorem live_route {c : Conventions} (normal : c.Normal) {h : Heading} {p : Place}
    (formed : p.site.Formed) (named : p.site.Named) {l : Ledger}
    (standing : p.turn.met = p.site.workshop h l) {declaration : Declaration}
    (step : p.turn.step = .operation (.register c declaration)) {e : Entry}
    (declares : p.Declares h e) :
    ∃ d, p.turn.outcome = .descriptor d ∧ LiveRoute c p.site declaration d e := by
  obtain ⟨s, turn, met⟩ := p
  obtain rfl : turn = _ := step
  obtain rfl : met = s.workshop h l := standing
  obtain ⟨-, r, own, text, ⟨built, describes, outcome, rfl⟩, given, -, rfl⟩ := declares
  have host : Host.ofDraft (s.workshop h l).draft = Reading.host h s l.pipelines :=
    ofDraft_draft formed h l
  rw [host] at describes
  obtain ⟨dotted, bag, helper, -, grammatical, settled, same⟩ := describe_ok describes
  obtain ⟨name, named_helper, valid⟩ :=
    settleHelper_valid normal grammatical (Site.qualify_dotted formed dotted) settled
  obtain ⟨stems, stems_eq, stems_valid⟩ := named.stems
  have helper_eq : built.value.helper = .string name := by
    rw [same]
    exact named_helper
  have own_eq : own = .string name := by
    have given : Reading.ownHelper h built.value.helper c.handler = .ok own := given
    rw [helper_eq] at given
    cases given
    rfl
  have joined := s.helper_texts stems_eq (fun n hn => isHelper_ne_empty (stems_valid n hn))
    (isHelper_ne_empty valid)
  have action : ∀ a, declaration.action = some (.string a) → isHelper a :=
    fun a ha => describe_action describes ha
  refine ⟨built.value, outcome, ?_⟩
  rw [own_eq, Reading.entry, joined]
  exact {
    verb := rfl
    handler := rfl
    view := by rw [same]; rfl
    dotted := by
      rw [same]
      exact Site.qualify_dotted formed dotted
    action := by rw [same]; rfl
    valid := action
    addressed := rfl
    helper := ⟨stems, name, stems_eq, helper_eq, rfl⟩
    own := by rw [same]; rfl
    dispatchData := by
      show [(dataKey, built.value.privateData.toValue)] = _
      rw [same]
      rfl
    publicData := by
      show [(dataKey, built.value.publicData.toValue)] = _
      rw [same]
      rfl }

section Table
variable {name : String} {options : RouterOptions} {w : Workshop} {propagate : Bool}
  {steps : List Step} {before after : List Place} {site : Site} {met : Workshop} {t : Table}

theorem live_route_at (typed : BodyTyped steps)
    (started : Draft.start name options = .ok w.draft)
    (taken : bodyPlaces propagate .root steps w =
      before ++ ⟨site, ⟨.operation .finish, met⟩⟩ :: after)
    (built : Turn.outcome ⟨.operation .finish, met⟩ = .table t) {p : Place}
    {earlier later : List Place} (parted : before = earlier ++ p :: later) {c : Conventions}
    {declaration : Declaration} (step : p.turn.step = .operation (.register c declaration))
    {d : Descriptor} (described : p.turn.outcome = .descriptor d) :
    ∃ e, t.routes[(earlier.filter Place.adds).length]? = some e ∧
      LiveRoute c p.site declaration d e := by
  have adds : p.adds := by
    rw [Place.adds, Turn.adds, step, described]
    rfl
  have member : p ∈ bodyPlaces propagate .root steps w := by
    rw [taken, parted]
    simp
  obtain ⟨e, found, declares⟩ := route_at started taken built parted adds
  obtain ⟨formed, l, standing⟩ := places_stand started member
  obtain ⟨named, stepTyped⟩ := bodyPlaces_typed Site.root_named propagate steps typed w p member
  rw [step, Step.Typed] at stepTyped
  obtain ⟨d', outcome, route⟩ :=
    live_route stepTyped.normal formed named standing step declares
  cases described.symm.trans outcome
  exact ⟨e, found, route⟩

/-- What a live statement is described as, its full options and their order included, is read back
from the route that the table has in its place. The route is added under its own handler, whatever
the scopes around are, and its helper is put under their stems. A route that was added by itself is
taken for a live one by neither reader, unless it was given data under the live key. -/
theorem live_readback (typed : BodyTyped steps)
    (started : Draft.start name options = .ok w.draft)
    (taken : bodyPlaces propagate .root steps w =
      before ++ ⟨site, ⟨.operation .finish, met⟩⟩ :: after)
    (built : Turn.outcome ⟨.operation .finish, met⟩ = .table t) {p : Place}
    {earlier later : List Place} (parted : before = earlier ++ p :: later) :
    (∀ {c : Conventions} {declaration : Declaration} {d : Descriptor},
      p.turn.step = .operation (.register c declaration) → declaration.Written →
      p.turn.outcome = .descriptor d →
      ∃ e, t.routes[(earlier.filter Place.adds).length]? = some e ∧
        e.verb = "GET" ∧ e.handler = c.handler ∧
        e.action = (d.action.map Value.text).getD d.targetView ∧
        (∃ (stems : List String) (own : String), p.site.stems = stems.map .string ∧
          d.helper = .string own ∧ e.helper = .string (Text.join "_" (stems ++ [own]))) ∧
        ∃ target found, liveTarget? e = some target ∧ livePublic? e = some found ∧
          target.view = d.targetView ∧ target.options = .record d.privateData.options.toRecord ∧
          found.view = d.targetView ∧ found.action = d.action ∧
          Value.field target.options.ownFields "action" = actionValue found.action) ∧
    ∀ {verb path handler action : String} {given : Value} {e : Entry},
      p.turn.step = .operation (.add verb path handler action given) →
      p.turn.outcome = .entry e →
      t.routes[(earlier.filter Place.adds).length]? = some e ∧
        ∃ o, AddOptions.ofValue given = .ok o ∧
          (dataKey ∉ Record.names o.dispatchData → liveTarget? e = none) ∧
          (dataKey ∉ Record.names o.publicData → livePublic? e = none) := by
  constructor
  · intro c declaration d step written described
    obtain ⟨e, found, route⟩ := live_route_at typed started taken built parted step described
    obtain ⟨target, stored⟩ := route.readings written
    refine ⟨e, found, route.verb, route.handler, route.addressed, route.helper, _, _, target,
      stored, rfl, rfl, rfl, rfl, ?_⟩
    rw [← route.own]
    exact d.privateData.options.fields.2.1
  · intro verb path handler action given e step added
    have adds : p.adds := by
      rw [Place.adds, Turn.adds, step, added]
      rfl
    obtain ⟨e', found, returned, r, own, text, asks, -, -, same⟩ :=
      route_at started taken built parted adds
    rw [Turn.Returned, step] at returned
    obtain rfl : e = e' := Outcome.entry.inj (added.symm.trans returned)
    rw [Asks, step] at asks
    obtain ⟨o, read, rfl⟩ := asks
    refine ⟨found, o, read, ?_, ?_⟩
    · intro other
      apply liveTarget?_none
      rw [same]
      exact other
    · intro other
      apply livePublic?_none
      rw [same]
      exact other

end Table

def adminConventions : Conventions := { handler := "AdminWeb.LivePlug" }

theorem adminConventions_normalized : adminConventions.Normalized := by
  refine ⟨.record [("handler", .string "AdminWeb.LivePlug")], .inr ⟨.ordinary, _, rfl, ?_⟩, rfl⟩
  intro key
  cases key with
  | handler => exact .inr ⟨_, rfl⟩
  | _ => exact .inl rfl

/-- Statements of two compilers in a scope with names and options of its own, one with a bag in the
place of its action. -/
def usersProgram : List Step :=
  let live (c : Conventions) (path view : String) (action options : Value) : Step :=
    .operation (.register c (.ofArguments path view action options))
  [.operation (.add "GET" "/" "PageController" "index"
      (.record [("private", .record [("token", .null)])])),
    .scope "/admin" (.record [("alias", .string "Admin"), ("as", .string "admin"),
        ("session", .record [("theme", .null)])]) false [
      live {} "users/late" "UserLive.Late" .undefined .undefined,
      live adminConventions "/users/" "UserLive"
        (.record [("session", .record [("tab", .null)])]) .undefined,
      live {} "/log" "LogLive.Index" (.string "index") (.record [("as", .string "journal")])],
    .operation .finish]

theorem usersProgram_written {c : Conventions} {declaration : Declaration}
    (listed : .register c declaration ∈ bodyOperations usersProgram) : declaration.Written := by
  simp only [usersProgram, bodyOperations, Step.operations, List.append_nil, List.cons_append,
    List.nil_append, List.mem_cons, List.not_mem_nil, or_false, reduceCtorEq, false_or,
    Operation.register.injEq] at listed
  rcases listed with ⟨-, rfl⟩ | ⟨-, rfl⟩ | ⟨-, rfl⟩ <;> exact Declaration.ofArguments_written ..

theorem live_readback_scoped :
    ∃ before site met after t earlier p later c declaration d e target,
      BodyTyped usersProgram ∧
      Draft.start "App.Router" {} = .ok freshWorkshop.draft ∧
      bodyPlaces false .root usersProgram freshWorkshop =
        before ++ ⟨site, ⟨.operation .finish, met⟩⟩ :: after ∧
      Turn.outcome ⟨.operation .finish, met⟩ = .table t ∧ before = earlier ++ p :: later ∧
      p.turn.step = .operation (.register c declaration) ∧ declaration.Written ∧
      p.turn.outcome = .descriptor d ∧ t.routes[1]? = some e ∧
      e.handler = "AdminWeb.LivePlug" ∧ e.action = "Admin.UserLive" ∧
      e.helper = .string "admin_live" ∧ livePublic? e = some ⟨"Admin.UserLive", none⟩ ∧
      liveTarget? e = some target ∧ target.view = "Admin.UserLive" ∧
      target.options = .record d.privateData.options.toRecord ∧
      Record.names d.privateData.options.toRecord =
        ["session", "router", "action", "inferredLayout", "layout"] ∧
      (Value.field d.privateData.options.toRecord "session").ownFields.map (·.1) =
        ["theme", "tab"] := by
  have typed : BodyTyped usersProgram := by
    have added : Value.IsAddOptions (.record [("private", .record [("token", .null)])]) :=
      .inr ⟨.ordinary, _, rfl, .inl rfl, .inl rfl,
        .inr ⟨.ordinary, _, rfl, List.nodup_singleton "token"⟩, .inl rfl⟩
    have scope : Value.IsScopeOptions (.record [("alias", .string "Admin"),
        ("as", .string "admin"), ("session", .record [("theme", .null)])]) :=
      .inr ⟨.ordinary, _, rfl, .inr ⟨"Admin", rfl⟩, .inr ⟨"admin", rfl⟩, .inl rfl,
        .inr ⟨.ordinary, _, rfl, List.nodup_singleton "theme"⟩, .inl rfl⟩
    simp only [usersProgram, BodyTyped, Step.Typed, Operation.Typed]
    exact ⟨added, ⟨scope, Conventions.normalized_default, adminConventions_normalized,
      Conventions.normalized_default, trivial⟩, trivial, trivial⟩
  have started : Draft.start "App.Router" {} = .ok freshWorkshop.draft := if_pos (by decide)
  have last : ((bodyPlaces false .root usersProgram freshWorkshop)[5]?.bind fun p =>
      p.turn.taken?.map fun _ => ()) = some () := by
    decide +kernel
  have live : (((bodyPlaces false .root usersProgram freshWorkshop).take 5)[3]?.bind fun p =>
      p.turn.step.live?.bind fun live =>
        p.turn.outcome.descriptor?.map fun d =>
          (d.action.isNone, [p.site.stems.map Value.text,
            [live.1.handler, d.helper.text, d.targetView],
            Record.names d.privateData.options.toRecord,
            (Value.field d.privateData.options.toRecord "session").ownFields.map (·.1)])) =
        some (true, [["admin"], ["AdminWeb.LivePlug", "live", "Admin.UserLive"],
          ["session", "router", "action", "inferredLayout", "layout"], ["theme", "tab"]]) := by
    decide +kernel
  have position : ((((bodyPlaces false .root usersProgram freshWorkshop).take 5).take 3).filter
      Place.adds).length = 1 := by
    decide +kernel
  generalize places : bodyPlaces false .root usersProgram freshWorkshop = taken
    at last live position ⊢
  obtain ⟨⟨site, step, met⟩, finish, last⟩ := Option.bind_eq_some_iff.mp last
  obtain ⟨p, third, live⟩ := Option.bind_eq_some_iff.mp live
  have parted := parted_at finish
  have inside := parted_at third
  obtain ⟨t, table, -⟩ := Option.map_eq_some_iff.mp last
  obtain ⟨rfl, built⟩ := Turn.taken?_eq_some.mp table
  obtain ⟨⟨c, declaration⟩, declared, live⟩ := Option.bind_eq_some_iff.mp live
  obtain ⟨d, described, live⟩ := Option.map_eq_some_iff.mp live
  have step := Step.live?_eq_some.mp declared
  have described := Outcome.descriptor?_eq_some.mp described
  obtain ⟨action, texts⟩ := Prod.mk.inj live
  rw [Option.isNone_iff_eq_none] at action
  simp only [List.cons.injEq, and_true] at texts
  obtain ⟨stems_eq, ⟨handler_eq, helper_eq, view_eq⟩, fields, session⟩ := texts
  have written : declaration.Written := by
    have member : p ∈ bodyPlaces false .root usersProgram freshWorkshop := by
      rw [places]
      exact List.mem_of_mem_take (List.mem_of_getElem? third)
    exact usersProgram_written (places_operations started member step)
  obtain ⟨statement, -⟩ := live_readback typed started (places.trans parted) built inside
  obtain ⟨e, found, -, handler, addressed, ⟨stems, own, same, helper, joined⟩, target, data,
    targeted, read, view, options, read_view, read_action, -⟩ :=
    statement step written described
  have stems_text : stems = ["admin"] := by
    rw [← stems_eq, same, List.map_map]
    exact (List.map_id _).symm
  have own_text : own = "live" := by
    rw [← helper_eq, helper]
    rfl
  rw [position] at found
  rw [action, view_eq] at addressed
  rw [stems_text, own_text] at joined
  have public_data : data = ⟨"Admin.UserLive", none⟩ := by
    obtain ⟨_, _⟩ := data
    cases read_view.trans view_eq
    cases read_action.trans action
    rfl
  exact ⟨_, site, met, _, t, _, p, _, c, declaration, d, e, target, typed, started, parted, built,
    inside, step, written, described, found, handler.trans handler_eq, addressed, joined,
    public_data ▸ read, targeted, view.trans view_eq, options, fields, session⟩

end ViewRouting.Lexical
