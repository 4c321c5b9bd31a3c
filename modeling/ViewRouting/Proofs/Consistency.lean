import ViewRouting.Proofs.Lexical.Standing
import ViewRouting.Proofs.LiveRoutes
import ViewRouting.Proofs.Precedence

/-! What the parts of a descriptor say of one another. The view, the action, the layout and the
options of a route are each written down in several places, which are filled from a merge and then
overridden. They agree with each other, with the scopes that the statement stands in, as these were
opened, and with what was declared; an identifier that is put together is one, whatever is around.
-/

namespace ViewRouting.Naming

theorem segments_single {s : String} (clean : '.' ∉ s.toList) : segments s = [s] := by
  have whole : Text.join "." [s] = s := by simp [Text.join]
  have split : segments (Text.join "." [s]) = [s] :=
    Text.split_join '.' (List.forall_mem_singleton.mpr clean) (List.cons_ne_nil s [])
  rwa [whole] at split

theorem parts_single {s : String} (clean : '.' ∉ s.toList) (some : s ≠ "") : parts s = [s] := by
  rw [parts, segments_single clean]
  simpa using some

theorem concat_segments {ss : List String} (clean : ∀ s ∈ ss, '.' ∉ s.toList ∧ s ≠ "") :
    concat ss = Text.join "." ss := by
  have parts : ss.flatMap parts = ss := by
    induction ss with
    | nil => rfl
    | cons s ss ih =>
      obtain ⟨⟨apart, some⟩, rest⟩ := List.forall_mem_cons.mp clean
      rw [List.flatMap_cons, parts_single apart some, ih rest]
      rfl
  rw [concat_eq, parts]

theorem segments_dotted {identifier : String} (h : isDotted identifier) :
    ∀ s ∈ segments identifier, '.' ∉ s.toList ∧ s ≠ "" ∧ isDotted s := by
  intro s hs
  have segment : isSegment s := List.all_eq_true.mp h s hs
  obtain ⟨clean, some⟩ := parts_clean identifier s (parts_of_dotted h ▸ hs)
  refine ⟨clean, some, ?_⟩
  simp [isDotted, segments_single clean, segment]

end ViewRouting.Naming

namespace ViewRouting.RouteOptions

def get? (o : RouteOptions) : String → Option Value
  | "session" => o.session.map .record
  | "layout" => o.layout.map Layout.toValue
  | "container" => o.container.map Container.toValue
  | "as" => o.helper
  | _ => none

theorem get?_fields (o : RouteOptions) (name : String) :
    Record.get? o.fields name = o.get? name := by
  simp only [fields, Record.get?_append, GroupOptions.get?_fieldOf]
  fun_cases o.get? name with
  | case1 | case2 | case3 | case4 => simp
  | case5 name session layout container helper =>
    rw [if_neg session, if_neg layout, if_neg container, if_neg helper]
    rfl

end ViewRouting.RouteOptions

namespace ViewRouting.Live
open Naming Router Lexical

theorem DispatchOptions.get?_given (o : DispatchOptions) {name : String}
    (other : name ∉ ["router", "action", "inferredLayout", "layout"]) :
    Record.get? o.toRecord name = Record.get? o.given.fields name := by
  have absent : name ∉ Record.names [("layout", o.layout.toValue),
      ("inferredLayout", o.inferredLayout.toValue), ("action", actionValue o.action),
      ("router", Value.string o.router)] := by
    simp only [Record.names, List.map_cons, List.map_nil, List.mem_cons, List.not_mem_nil]
      at other ⊢
    tauto
  rw [toRecord, Record.get?_insertAll]
  exact congrArg (Option.or · _) (Record.get?_eq_none absent)

theorem DispatchOptions.field_given (o : DispatchOptions) {name : String}
    (other : name ∉ ["router", "action", "inferredLayout", "layout"]) :
    Value.field o.toRecord name = Value.field o.given.fields name := by
  rw [Value.field, o.get?_given other, Value.field]

def layoutViewBeside (c : Conventions) (router : String) : String :=
  Text.join "." ((segments router).dropLast ++ [c.layoutSegment])

theorem layoutBeside_view {c : Conventions} (normal : c.Normal) {router : String}
    (dotted : isDotted router) :
    (layoutBeside c router).value = ⟨.string (layoutViewBeside c router), c.layoutTemplate⟩ ∧
      isDotted (layoutViewBeside c router) := by
  have single : '.' ∉ c.layoutSegment.toList ∧ isDotted c.layoutSegment := by
    have single := normal.layoutSegment
    rw [Conventions.isSingleSegment, Bool.and_eq_true] at single
    exact ⟨by simpa using single.2, single.1⟩
  have all : ∀ s ∈ (segments router).dropLast ++ [c.layoutSegment],
      '.' ∉ s.toList ∧ s ≠ "" ∧ isDotted s := by
    intro s hs
    rcases List.mem_append.mp hs with hs | hs
    · exact segments_dotted dotted s (List.mem_of_mem_dropLast hs)
    · rw [List.mem_singleton.mp hs]
      exact ⟨single.1, isDotted_ne_empty single.2, single.2⟩
  have joined : concat ((segments router).dropLast ++ [c.layoutSegment]) =
      layoutViewBeside c router :=
    concat_segments fun s hs => ⟨(all s hs).1, (all s hs).2.1⟩
  rw [layoutBeside, joined]
  refine ⟨rfl, ?_⟩
  rw [← joined]
  apply concat_dotted
  · exact fun s hs => .inr (all s hs).2.2
  · exact ⟨c.layoutSegment, by simp, isDotted_ne_empty single.2⟩

theorem segments_qualify {s : Site} (formed : s.Formed) {view : String} (dotted : isDotted view) :
    segments (s.qualify view) = s.qualifiers.flatMap segments ++ segments view := by
  have qualifiers := formed.qualifiers_dotted
  rw [Site.qualify]
  cases hs : s.qualifiers with
  | nil => rfl
  | cons q rest =>
    rw [hs] at qualifiers
    have all : ∀ i ∈ q :: rest ++ [view], isDotted i := by
      intro i hi
      rcases List.mem_append.mp hi with hi | hi
      · exact qualifiers i hi
      · rwa [List.mem_singleton.mp hi]
    have some : ∃ i ∈ q :: rest ++ [view], i ≠ "" := ⟨view, by simp, isDotted_ne_empty dotted⟩
    have parts : (q :: rest ++ [view]).flatMap parts = (q :: rest ++ [view]).flatMap segments :=
      List.flatMap_congr fun i hi => parts_of_dotted (all i hi)
    show segments (concat (q :: rest ++ [view])) = _
    rw [segments_concat (fun i hi => .inr (all i hi)) some, parts, List.flatMap_append,
      List.flatMap_singleton]

theorem settleHelper_cases {c : Conventions} {view : String} {action given : Option Value}
    {helper : Observed Value} (settled : settleHelper c view action given = .ok helper) :
    (∀ v, given = some v → helper.value = v) ∧
      (given = none → action = none → helper.value = c.impliedHelper) ∧
      (given = none → ∀ a, action = some a →
        helper.value = .string (Text.join "_" (helperWords c.liveSuffix view))) := by
  cases given with
  | some v =>
    cases settled
    refine ⟨fun _ same => Option.some.inj same, ?_, ?_⟩ <;> rintro ⟨⟩
  | none =>
    cases action with
    | none =>
      cases settled
      refine ⟨?_, fun _ _ => rfl, ?_⟩
      · rintro _ ⟨⟩
      · rintro _ _ ⟨⟩
    | some a =>
      rw [settleHelper, helperFor] at settled
      split at settled <;> cases settled
      refine ⟨?_, ?_, fun _ _ _ => rfl⟩ <;> rintro _ ⟨⟩

/-- What the parts of a descriptor say of the declaration, of the site and of one another. -/
structure Consistent (c : Conventions) (router : String) (s : Site) (decl : Declaration)
    (d : Descriptor) : Prop where
  path : d.path = decl.path
  action : d.action = decl.action
  view : isDotted d.targetView
  segments : segments d.targetView = s.qualifiers.flatMap segments ++ segments decl.view
  helper : IsHelperText d.helper
  given : ∀ v, Value.present? decl.options.ownFields "as" = some v → d.helper = v
  implied : Value.present? decl.options.ownFields "as" = none → decl.action = none →
    d.helper = c.impliedHelper
  inferred : Value.present? decl.options.ownFields "as" = none → ∀ a, decl.action = some a →
    d.helper = .string (Text.join "_" (helperWords c.liveSuffix d.targetView))
  privateData : d.privateData.toValue =
    .array [.string d.targetView, .record d.privateData.options.toRecord]
  publicData : d.publicData.toValue = .array [.string d.targetView, actionValue d.action]
  routed : Value.field d.privateData.options.toRecord "router" = .string router
  acts : Value.field d.privateData.options.toRecord "action" = actionValue d.action
  layout : Value.field d.privateData.options.toRecord "layout" = d.layout.toValue
  inferredLayout : Value.field d.privateData.options.toRecord "inferredLayout" =
    .array [.string (layoutViewBeside c router), c.layoutTemplate]
  layoutView : isDotted (layoutViewBeside c router)
  /-- The options have a helper exactly if one was declared. -/
  ownHelper : Record.get? d.privateData.options.toRecord "as" =
    Value.present? decl.options.ownFields "as"
  ownLayout : ∀ v, Value.present? decl.options.ownFields "layout" = some v →
    Value.field d.privateData.options.toRecord "layout" = v
  ownContainer : ∀ v, Value.present? decl.options.ownFields "container" = some v →
    ∃ tag kind attributes, v = .array [tag, .object kind attributes] ∧
      Value.field d.privateData.options.toRecord "container" = .array [tag, .record attributes]
  ownSession : ∀ v, Value.present? decl.options.ownFields "session" = some v →
    ∃ kind declared session, v = .object kind declared ∧
      Value.field d.privateData.options.toRecord "session" = .record session ∧
      ∀ k x, Record.get? declared k = some x → Record.get? session k = some x

section Merged
variable {o : GroupOptions} {own : Record Value}

theorem merged_layout (typed : o.Typed) (grammatical : Grammatical own) {v : Value}
    (declared : Value.present? own "layout" = some v) (inferred : Layout) :
    ((RouteOptions.merge o.fields own).layout.getD inferred).toValue = v := by
  obtain ⟨view, template, rfl, -⟩ := grammatical.layout v declared
  rw [merge_layout typed grammatical, declared]
  rfl

theorem merged_container (typed : o.Typed) (grammatical : Grammatical own) {v : Value}
    (declared : Value.present? own "container" = some v) :
    ∃ tag kind attributes, v = .array [tag, .object kind attributes] ∧
      Value.field (RouteOptions.merge o.fields own).fields "container" =
        .array [tag, .record attributes] := by
  obtain ⟨tag, kind, attributes, rfl, -⟩ := grammatical.container v declared
  refine ⟨.string tag, kind, attributes, rfl, ?_⟩
  rw [Value.field, RouteOptions.get?_fields, RouteOptions.get?, merge_container typed grammatical,
    declared]
  rfl

theorem merged_session (typed : o.Typed) (grammatical : Grammatical own)
    (distinct : ∀ v, Value.present? own "session" = some v → Record.Distinct v.ownFields)
    {v : Value} (declared : Value.present? own "session" = some v) :
    ∃ kind inner session, v = .object kind inner ∧
      Value.field (RouteOptions.merge o.fields own).fields "session" = .record session ∧
      ∀ k x, Record.get? inner k = some x → Record.get? session k = some x := by
  obtain ⟨kind, inner, rfl⟩ := grammatical.session v declared
  have outer : Record.Distinct (o.session.getD []) := by
    cases hs : o.session with
    | none => exact List.nodup_nil
    | some r => exact typed.session r hs
  refine ⟨kind, inner, Record.overlay (o.session.getD []) inner, rfl, ?_, ?_⟩
  · rw [Value.field, RouteOptions.get?_fields, RouteOptions.get?, merge_session grammatical,
      declared]
    obtain ⟨layout, _ | session, container⟩ := o <;> rfl
  · intro k x hx
    have own_distinct : Record.Distinct inner := distinct _ declared
    rw [Record.get?_overlay outer own_distinct, hx]
    rfl

end Merged

/-- Every reachable draft stands at a site, and the descriptor of a declaration that compiles there
is consistent with it. -/
theorem describe_consistent {d : Draft} (reachable : Session.Reachable d) {c : Conventions}
    (normalized : c.Normalized) {decl : Declaration} {built : Observed Descriptor}
    (distinct : ∀ v, Value.present? decl.options.ownFields "session" = some v →
      Record.Distinct v.ownFields)
    (compiled : describe c (.ofDraft d) decl = .ok built) :
    (∃ s, StandsAt s d) ∧ ∀ s, StandsAt s d → Consistent c d.name s decl built.value := by
  refine ⟨reachable_iff_stands.mp reachable, fun s standing => ?_⟩
  have hd := Session.reachable_sound reachable
  have normal := normalized.normal
  have typed := inherited_typed hd
  obtain ⟨dotted, own, helper, ⟨kind, given⟩, grammatical, settled, rfl⟩ := describe_ok compiled
  have own_eq := ownFields_orElse given
  rw [own_eq] at distinct
  have qualified : d.qualify decl.view = s.qualify decl.view := by
    obtain ⟨formed, h, l, rfl⟩ := standing.draft
    exact s.frame_qualify formed decl.view
  obtain ⟨router, action, layout⟩ :=
    (described c (.ofDraft d) decl own helper).value.privateData.options.fields
  obtain ⟨beside, layoutView⟩ := layoutBeside_view normal hd.name
  obtain ⟨asked, implied, inferred⟩ := settleHelper_cases settled
  have other {name : String} (h : name ∉ ["router", "action", "inferredLayout", "layout"]) :=
    (described c (.ofDraft d) decl own helper).value.privateData.options.field_given h
  constructor
  case path => rfl
  case action => rfl
  case view => exact qualify_dotted hd dotted
  case segments =>
    show segments (d.qualify decl.view) = _
    rw [qualified, segments_qualify standing.draft.1 dotted]
  case helper => exact settleHelper_valid normal grammatical (qualify_dotted hd dotted) settled
  case given =>
    rw [own_eq]
    exact asked
  case implied =>
    rw [own_eq]
    exact implied
  case inferred =>
    rw [own_eq]
    exact inferred
  case privateData => rfl
  case publicData => rfl
  case routed => exact router
  case acts => exact action
  case layout => exact layout
  case inferredLayout =>
    simp only [DispatchOptions.toRecord, Value.field, Record.get?_insertAll]
    show (layoutBeside c d.name).value.toValue = _
    rw [beside]
    rfl
  case layoutView => exact layoutView
  case ownHelper =>
    rw [own_eq, DispatchOptions.get?_given _ (by decide), RouteOptions.get?_fields,
      RouteOptions.get?]
    rfl
  case ownLayout =>
    intro v declared
    rw [own_eq] at declared
    rw [layout]
    exact merged_layout typed grammatical declared _
  case ownContainer =>
    intro v declared
    rw [own_eq] at declared
    rw [other (by decide)]
    exact merged_container typed grammatical declared
  case ownSession =>
    intro v declared
    rw [own_eq] at declared
    rw [other (by decide)]
    exact merged_session typed grammatical distinct declared

theorem describe_consistent_nested :
    ∃ (s : Site) (d : Draft) (decl : Declaration) (built : Observed Descriptor),
      StandsAt s d ∧ s.qualifiers = ["Admin", "Area.Blue"] ∧
      describe {} (.ofDraft d) decl = .ok built ∧ Consistent {} d.name s decl built.value ∧
      segments built.value.targetView = ["Admin", "Area", "Blue", "UserLive", "Index"] := by
  let journal : Trace.Journal := ⟨.fresh none {} .epoch, []⟩
  let start : Draft := { name := "App.Router", handlerSuffix := .string "Controller" }
  let role : Record Value := [("role", .null)]
  let outer : Value := .record [("alias", .string "Admin"), ("session", .record role)]
  let inner : Value := .string "Area.Blue"
  let first : Draft := Session.leftBy (Drafting.enterScope "/admin" outer) start journal
  let d : Draft := Session.leftBy (Drafting.enterScope "/area" inner) first journal
  let here : Opening := ⟨"/area", some "Area.Blue", .undefined, {}, []⟩
  let around : Opening := ⟨"/admin", some "Admin", .undefined, { session := some role }, []⟩
  let s : Site := (Site.root.within around).within here
  have outerTyped : outer.IsScopeOptions :=
    .inr ⟨.ordinary, _, rfl, .inr ⟨"Admin", rfl⟩, .inl rfl, .inl rfl,
      .inr ⟨.ordinary, role, rfl, List.nodup_singleton "role"⟩, .inl rfl⟩
  have started : Draft.start "App.Router" {} = .ok start := if_pos (by decide)
  have standing : StandsAt s d := by
    have outerRead : Opening.read "/admin" outer = .ok around := rfl
    have innerRead : Opening.read "/area" inner = .ok here := rfl
    obtain ⟨w, outerOpened, outside⟩ : ∃ w,
        Drafting.enterScope "/admin" outer ⟨start, journal⟩ = .ok () w ∧ w.draft = first :=
      ⟨_, rfl, rfl⟩
    obtain ⟨w', innerOpened, inside⟩ : ∃ w,
        Drafting.enterScope "/area" inner ⟨first, journal⟩ = .ok () w ∧ w.draft = d :=
      ⟨_, rfl, rfl⟩
    have root : StandsAt .root start := .start ⟨"Controller", rfl⟩ started
    have admin : StandsAt (Site.root.within around) first :=
      outside ▸ root.enter outerTyped outerRead outerOpened
    exact inside ▸ admin.enter (.inl ⟨"Area.Blue", rfl⟩) innerRead innerOpened
  let own : Record Value := [("role", .string "owner")]
  let container : Value := .array [.string "main", .record [("id", .string "app")]]
  let decl : Declaration := {
    path := "/users"
    view := "UserLive.Index"
    action := some (.string "index")
    options := .record [("session", .record own), ("container", container)] }
  have normalized : Conventions.Normalized {} := Conventions.normalized_default
  have distinct : ∀ v, Value.present? decl.options.ownFields "session" = some v →
      Record.Distinct v.ownFields := by
    intro v hv
    have hv : some (Value.record own) = some v := hv
    cases hv
    exact List.nodup_singleton "role"
  have compiles : (describe {} (.ofDraft d) decl).isOk := by
    simp only [d, first, decl, start, outer, inner, own, role, container, journal]
    decide +kernel
  obtain ⟨built, compiled⟩ := ok_of_isOk compiles
  have consistent :=
    (describe_consistent standing.reachable normalized distinct compiled).2 s standing
  refine ⟨s, d, decl, built, standing, rfl, compiled, consistent, ?_⟩
  rw [consistent.segments]
  simp only [s, around, here, decl]
  decide +kernel

end ViewRouting.Live
