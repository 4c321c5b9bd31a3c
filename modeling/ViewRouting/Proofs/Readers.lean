import ViewRouting.Proofs.Acceptance
import ViewRouting.Proofs.Consistency
import ViewRouting.Proofs.Grammar

/-! What the readers of live data vouch for. The reader of the public part looks at everything that
it hands out. The reader of the dispatch part looks for a view, a router and a layout and takes the
rest of the options on trust. They are what they should be where a live statement stored them, and
anything where something else did. -/

namespace ViewRouting.Live
open Router

def IsAction (v : Value) : Prop :=
  v = .null ∨ v.IsText

def IsElement (v : Value) : Prop :=
  ∃ tag kind attributes, v = .array [.string tag, .object kind attributes]

/-- The options of a route as the dispatch layer counts on them. -/
structure FullOptions (fields : Record Value) : Prop where
  router : (Value.field fields "router").IsText
  action : IsAction (Value.field fields "action")
  inferredLayout : (Value.field fields "inferredLayout").IsLayout
  layout : (Value.field fields "layout").IsLayout
  session : Value.Optional OptionRule.IsPlain fields "session"
  container : Value.Optional IsElement fields "container"
  helper : Value.Optional Value.IsText fields "as"

theorem FullOptions.seen {fields : Record Value} (full : FullOptions fields) :
    SeenOptions fields where
  router := full.router
  layout := by
    obtain ⟨view, template, pair⟩ := full.layout
    exact ⟨_, pair⟩

theorem Declaration.Written.isAction {d : Declaration} (written : d.Written) :
    IsAction (actionValue d.action) := by
  rcases written with none | ⟨a, some⟩
  · rw [none]
    exact .inl rfl
  · rw [some]
    exact .inr ⟨a, rfl⟩

section Merged
variable {o : GroupOptions} {own : Record Value}

theorem merged_layout_pair (typed : o.Typed) (grammatical : Grammatical own) {inferred : Layout}
    (pair : inferred.toValue.IsLayout) :
    ((RouteOptions.merge o.fields own).layout.getD inferred).toValue.IsLayout := by
  cases given : (RouteOptions.merge o.fields own).layout with
  | none => exact pair
  | some l =>
    obtain ⟨view, template, rfl⟩ := merged_layout_texts typed grammatical given
    exact ⟨view, template, rfl⟩

theorem merged_session_plain (o : RouteOptions) :
    Value.Optional OptionRule.IsPlain o.fields "session" := by
  rw [Value.Optional, Value.field, o.get?_fields, RouteOptions.get?]
  cases o.session with
  | none => exact .inl rfl
  | some session => exact .inr ⟨.ordinary, session, rfl⟩

theorem merged_container_element (typed : o.Typed) (grammatical : Grammatical own) :
    Value.Optional IsElement (RouteOptions.merge o.fields own).fields "container" := by
  rw [Value.Optional, Value.field, RouteOptions.get?_fields, RouteOptions.get?]
  cases given : (RouteOptions.merge o.fields own).container with
  | none => exact .inl rfl
  | some element =>
    obtain ⟨tag, text⟩ := merged_container_tag typed grammatical given
    refine .inr ⟨tag, .ordinary, element.attributes, ?_⟩
    rw [← text]
    rfl

theorem merged_helper_text (outer : Record Value) (grammatical : Grammatical own) :
    Value.Optional Value.IsText (RouteOptions.merge outer own).fields "as" := by
  rw [Value.Optional, Value.field, RouteOptions.get?_fields, RouteOptions.get?]
  cases given : (RouteOptions.merge outer own).helper with
  | none => exact .inl rfl
  | some v =>
    obtain ⟨s, text, -⟩ := grammatical.helper v given
    exact .inr ⟨s, text⟩

end Merged

theorem layoutBeside_pair {c : Conventions} (normal : c.Normal) (router : String) :
    (layoutBeside c router).value.toValue.IsLayout := by
  obtain ⟨template, text, -⟩ := normal.layoutTemplate
  exact ⟨_, template, congrArg (fun t => Value.array [_, t]) text⟩

theorem describe_full {d : Draft} (hd : DraftSound d) {c : Conventions} (normal : c.Normal)
    {decl : Declaration} (written : decl.Written) {built : Observed Descriptor}
    (compiled : describe c (.ofDraft d) decl = .ok built) :
    FullOptions built.value.privateData.options.toRecord := by
  have typed := inherited_typed hd
  obtain ⟨-, own, helper, -, grammatical, -, rfl⟩ := describe_ok compiled
  let options := (described c (.ofDraft d) decl own helper).value.privateData.options
  obtain ⟨router, action, layout⟩ := options.fields
  have given {name : String} (h : name ∉ ["router", "action", "inferredLayout", "layout"])
      {shape : Value → Prop} (right : Value.Optional shape options.given.fields name) :
      Value.Optional shape options.toRecord name := by
    rwa [Value.Optional, options.field_given h]
  have inferred := layoutBeside_pair normal d.name
  exact {
    router := ⟨_, router⟩
    action := action ▸ written.isAction
    inferredLayout := options.field_inferredLayout ▸ inferred
    layout := layout ▸ merged_layout_pair typed grammatical inferred
    session := given (by decide) (merged_session_plain _)
    container := given (by decide) (merged_container_element typed grammatical)
    helper := given (by decide) (merged_helper_text _ grammatical) }

/-- A reader hands out what is stored under the live key if that has the shape that it looks for. The
public reader looks at everything, the dispatch reader at no more of the options than the router and
that the layout is an array, so that it misses none that are in full shape. What it reads of the
route that a live statement has added is in full shape. -/
theorem readers_vouch (e : Entry) :
    (∀ target, liveTarget? e = some target ↔
      Value.field e.dispatchData dataKey = .array [.string target.view, target.options] ∧
        ∃ kind fields, target.options = .object kind fields ∧ SeenOptions fields) ∧
    (∀ found, livePublic? e = some found ↔
      Value.field e.publicData dataKey = .array [.string found.view, actionValue found.action] ∧
        (found.action = none ∨ ∃ a, found.action = some (.string a))) ∧
    (∀ view kind fields, FullOptions fields →
      Value.field e.dispatchData dataKey = .array [.string view, .object kind fields] →
        liveTarget? e = some ⟨view, .object kind fields⟩) ∧
    ∀ c w decl built left, Session.Reachable w.draft → c.Normalized → decl.Written →
      register c decl w = .ok built left → left.draft.entries = w.draft.entries ++ [e] →
        ∃ fields, liveTarget? e = some ⟨built.targetView, .record fields⟩ ∧ FullOptions fields ∧
          livePublic? e = some ⟨built.targetView, built.action⟩ := by
  refine ⟨fun _ => liveTarget?_iff, fun _ => livePublic?_iff, ?_, ?_⟩
  · intro view kind fields full stored
    exact liveTarget?_iff.mpr ⟨stored, kind, fields, rfl, full.seen⟩
  · intro c w decl built left reachable normalized written ran added
    rcases register_cases c decl w with ⟨_, _, failed⟩ | ⟨told, e', _, compiled, accepted, passed⟩
    · cases failed.symm.trans ran
    · cases passed.symm.trans ran
      obtain rfl : e' = e := by simpa using added
      have full :=
        describe_full (Session.reachable_sound reachable) normalized.normal written compiled
      obtain ⟨-, -, -, -, -, -, rfl⟩ := Draft.accept_ok.mp accepted
      obtain ⟨-, own, helper, -, -, -, rfl⟩ := describe_ok compiled
      exact ⟨_, liveTarget?_stored rfl, full, livePublic?_stored written rfl⟩

theorem readers_vouch_stored :
    ∃ (decl : Declaration) (built : Descriptor) (left : Workshop) (e : Entry)
      (fields : Record Value), Session.Reachable Session.freshWorkshop.draft ∧
      Conventions.Normalized {} ∧ decl.Written ∧
      register {} decl Session.freshWorkshop = .ok built left ∧
      left.draft.entries = Session.freshWorkshop.draft.entries ++ [e] ∧
      liveTarget? e = some ⟨built.targetView, .record fields⟩ ∧ FullOptions fields ∧
      livePublic? e = some ⟨built.targetView, built.action⟩ := by
  let container : Value := .array [.string "main", .record [("id", .string "app")]]
  let decl : Declaration := {
    path := "/users"
    view := "UserLive.Index"
    action := some (.string "index")
    options := .record
      [("session", .record [("tab", .null)]), ("container", container), ("as", .string "users")] }
  have reachable : Session.Reachable Session.freshWorkshop.draft := Session.freshWorkshop_reachable
  have normalized : Conventions.Normalized {} := Conventions.normalized_default
  have written : decl.Written := .inr ⟨"index", rfl⟩
  have compiles : (settle {} Session.freshWorkshop.draft decl).isOk := by
    simp only [decl, container]
    decide +kernel
  obtain ⟨noted, ran⟩ := register_settled normalized.normal (Session.reachable_sound reachable) decl
    Session.freshWorkshop.journal
  obtain ⟨⟨built, e⟩, settled⟩ := ok_of_isOk compiles
  rw [settled] at ran
  obtain ⟨fields, stored⟩ :=
    (readers_vouch e).2.2.2 {} _ decl _ _ reachable normalized written ran rfl
  exact ⟨decl, _, _, e, fields, reachable, normalized, written, ran, rfl, stored⟩

/-- Options without an action and an inferred layout, and with an empty layout, are handed out. -/
theorem reader_misled :
    ∃ (e : Entry) (target : LiveTarget), liveTarget? e = some target ∧
      ¬FullOptions target.options.ownFields := by
  let fields : Record Value := [("router", .string "R"), ("layout", .array [])]
  let e : Entry := {
    verb := "GET"
    path := "/"
    handler := "PageController"
    action := "index"
    helper := .string "page"
    pipes := []
    dispatchData := [(dataKey, .array [.string "V", .record fields])]
    publicData := [] }
  refine ⟨e, ⟨"V", .record fields⟩, rfl, fun full => ?_⟩
  rcases full.action with null | ⟨_, text⟩
  · cases null
  · cases text

end ViewRouting.Live
