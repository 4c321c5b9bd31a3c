import ViewRouting.Proofs.Histories
import ViewRouting.Proofs.Invariant
import ViewRouting.Proofs.Parallel
import ViewRouting.Proofs.Precedence

/-! Scopes that stand right inside one another. A scope whose only statement is a scope does what
one scope with the joined path, names and options does, as long as the outer one has no layout of its
own: the pipelines of the body would come before the layout of the one scope and behind that of the
outer one. The body cannot tell the two apart, whatever it does and however it ends, because all
that it sees of the stack is what the frames add up to. Only the journal hears of one scope more. -/

namespace ViewRouting

namespace Naming

theorem concat_pair {outer inner : String} (ho : isDotted outer) (hi : isDotted inner) :
    concat [outer, inner] = outer ++ "." ++ inner := by
  have whole (s : String) : Text.join "." (segments s) = s := Text.join_split '.' s
  have first := whole outer
  have second := whole inner
  rw [Text.join] at first second
  rw [concat_eq, List.flatMap_cons, List.flatMap_singleton, parts_of_dotted ho, parts_of_dotted hi,
    Text.join, String.intercalate_append_of_ne_nil (segments_ne_nil _) (segments_ne_nil _), first,
    second]

theorem isDotted_pair {outer inner : String} (ho : isDotted outer) (hi : isDotted inner) :
    isDotted (outer ++ "." ++ inner) := by
  rw [← concat_pair ho hi]
  apply concat_dotted
  · intro i h
    simp only [List.mem_cons, List.not_mem_nil, or_false] at h
    rcases h with rfl | rfl
    · exact .inr ho
    · exact .inr hi
  · exact ⟨inner, by simp, isDotted_ne_empty hi⟩

end Naming

namespace Path

theorem join_rooted (outer inner : String) : isRooted (join outer inner) :=
  (join_canonical outer inner).1

end Path

namespace Router
open Naming

/-- Two names with a separator between them; a name that is undefined gives nothing. -/
def joinPresent (separator : String) : Value → Value → Value
  | .undefined, inner => inner
  | outer, .undefined => outer
  | outer, inner => .string (outer.text ++ separator ++ inner.text)

namespace ScopeOptions

/-- What two scopes ask for together, where the second stands right inside the first. -/
def fuse (outer inner : ScopeOptions) : ScopeOptions where
  qualifier := joinPresent "." outer.qualifier inner.qualifier
  stem := joinPresent "_" outer.stem inner.stem
  group := {
    layout := inner.group.layout
    session := GroupOptions.overlaySession outer.group.session inner.group.session
    container := inner.group.container <|> outer.group.container }

def toValue (o : ScopeOptions) : Value :=
  .record (("alias", o.qualifier) :: ("as", o.stem) :: o.group.fields)

/-- Names that pass the checks of a scope, where they are given. -/
structure Valid (o : ScopeOptions) : Prop where
  qualifier : o.qualifier = .undefined ∨ ∃ q, o.qualifier = .string q ∧ isDotted q
  stem : o.stem = .undefined ∨ IsHelperText o.stem

theorem ofValue_toValue {o : ScopeOptions} (layout : ∀ v, o.group.layout = some v → v.isTruthy)
    (container : ∀ v, o.group.container = some v → v.isTruthy) : ofValue o.toValue = .ok o := by
  let bag : Record Value := ("alias", o.qualifier) :: ("as", o.stem) :: o.group.fields
  have read : ofValue o.toValue = .ok (ofFields bag) := rfl
  have truthy {v? : Option Value} (h : ∀ v, v? = some v → v.isTruthy) :
      (v?.getD .undefined).truthy? = v? := by
    cases v? with
    | none => rfl
    | some v => simp [Value.truthy?, h v rfl]
  have field_layout : Value.field bag "layout" = o.group.layout.getD .undefined :=
    congrArg (Option.getD · _) (o.group.get?_fields "layout")
  have field_container : Value.field bag "container" = o.group.container.getD .undefined :=
    congrArg (Option.getD · _) (o.group.get?_fields "container")
  have session : GroupOptions.sessionOf bag = o.group.session := o.group.sessionOf_fields
  have group : GroupOptions.ofFields bag = o.group := by
    simp only [GroupOptions.ofFields, field_layout, field_container, session, truthy layout,
      truthy container]
  rw [read, ofFields, group]
  rfl

theorem truthy_of_read {v : Value} {o : ScopeOptions} (read : ofValue v = .ok o) :
    (∀ v, o.group.layout = some v → v.isTruthy) ∧
      ∀ v, o.group.container = some v → v.isTruthy := by
  have truthy (v w : Value) (h : v.truthy? = some w) : w.isTruthy := by
    rw [Value.truthy?] at h
    split at h
    · next hv => cases h; exact hv
    · cases h
  unfold ofValue at read
  split at read
  · cases read
    constructor <;> rintro _ ⟨⟩
  · obtain ⟨bag, -, rfl⟩ := map_ok.mp read
    exact ⟨truthy _, truthy _⟩

end ScopeOptions

theorem joinPresent_undefined (separator : String) (outer : Value) :
    joinPresent separator outer .undefined = outer := by
  cases outer <;> rfl

theorem joinPresent_assoc (separator : String) {a b c : Value}
    (ha : a = .undefined ∨ a.IsText) (hb : b = .undefined ∨ b.IsText)
    (hc : c = .undefined ∨ c.IsText) :
    joinPresent separator (joinPresent separator a b) c =
      joinPresent separator a (joinPresent separator b c) := by
  rcases hc with rfl | ⟨c, rfl⟩
  · rw [joinPresent_undefined, joinPresent_undefined]
  rcases hb with rfl | ⟨b, rfl⟩
  · rw [joinPresent_undefined]
    rfl
  rcases ha with rfl | ⟨a, rfl⟩
  · rfl
  · have text (s : String) : (Value.string s).text = s := rfl
    simp only [joinPresent, text, String.append_assoc]

theorem readQualifier_valid {o : ScopeOptions} (valid : o.Valid) :
    readQualifier o.qualifier = .ok o.qualifier.asString? := by
  rcases valid.qualifier with h | ⟨q, h, dotted⟩
  · rw [h]
    rfl
  · rw [h]
    exact readQualifier_ok.mpr ⟨rfl, dotted⟩

theorem extendStem_valid {outer : Value} (ho : outer = .undefined ∨ IsHelperText outer)
    {o : ScopeOptions} (valid : o.Valid) :
    extendStem outer o.stem = .ok (joinPresent "_" outer o.stem) := by
  rcases valid.stem with h | ⟨inner, h, hi⟩
  · rw [h, joinPresent_undefined]
    rfl
  · have read : readHelper (.string inner) = .ok inner := readHelper_ok.mpr ⟨rfl, hi⟩
    have under : extendStem outer (.string inner) = helperUnder outer (.string inner) := rfl
    rw [h, under, helperUnder, read]
    rcases ho with rfl | ⟨s, rfl, hs⟩
    · rfl
    · have truthy : (Value.string s).isTruthy := by
        simpa [Value.isTruthy] using isHelper_ne_empty hs
      simp only [bind, Except.bind, truthy, if_true]
      rfl

def Frame.inside (outer : Frame) (path : String) (asked : ScopeOptions) : Frame where
  path := Path.join outer.path path
  qualifier := extendQualifier outer.qualifier asked.qualifier.asString?
  stem := joinPresent "_" outer.stem asked.stem
  group := asked.group
  pipes := []

theorem enter_valid {outer : Frame} (ho : outer.stem = .undefined ∨ IsHelperText outer.stem)
    {path : String} (rooted : Path.isRooted path) {options : Value} {asked : ScopeOptions}
    (read : ScopeOptions.ofValue options = .ok asked) (valid : asked.Valid) :
    outer.enter path options = .ok (outer.inside path asked) := by
  rw [Frame.enter, Path.requireRooted, if_pos rooted, read]
  simp only [ok_mapError, bind, Except.bind, readQualifier_valid valid, extendStem_valid ho valid]
  rfl

theorem joinPresent_stem {outer inner : Value} (ho : outer = .undefined ∨ IsHelperText outer)
    (hi : inner = .undefined ∨ IsHelperText inner) :
    joinPresent "_" outer inner = .undefined ∨ IsHelperText (joinPresent "_" outer inner) := by
  rcases hi with rfl | ⟨i, rfl, hi⟩
  · rwa [joinPresent_undefined]
  rcases ho with rfl | ⟨o, rfl, ho⟩
  · exact .inr ⟨i, rfl, hi⟩
  · exact .inr ⟨o ++ "_" ++ i, rfl, isHelper_concat ho hi⟩

theorem fuse_valid {outer inner : ScopeOptions} (ho : outer.Valid) (hi : inner.Valid) :
    (outer.fuse inner).Valid where
  stem := joinPresent_stem ho.stem hi.stem
  qualifier := by
    simp only [ScopeOptions.fuse]
    rcases hi.qualifier with h | ⟨i, h, hi⟩
    · rw [h, joinPresent_undefined]
      exact ho.qualifier
    rcases ho.qualifier with h' | ⟨o, h', ho⟩
    · exact .inr ⟨i, by rw [h, h']; rfl, hi⟩
    · exact .inr ⟨o ++ "." ++ i, by rw [h, h']; rfl, isDotted_pair ho hi⟩

theorem extendQualifier_fuse (outermost : Option String) {outer inner : ScopeOptions}
    (ho : outer.Valid) (hi : inner.Valid) :
    extendQualifier (extendQualifier outermost outer.qualifier.asString?)
        inner.qualifier.asString? =
      extendQualifier outermost (outer.fuse inner).qualifier.asString? := by
  simp only [ScopeOptions.fuse]
  rcases hi.qualifier with h | ⟨i, h, hi⟩
  · rw [h, joinPresent_undefined]
    rfl
  rcases ho.qualifier with h' | ⟨o, h', ho⟩
  · rw [h, h']
    rfl
  · rw [h, h']
    have joined : joinPresent "." (.string o) (.string i) = .string (o ++ "." ++ i) := rfl
    rw [joined, ← concat_pair ho hi]
    simp only [Value.asString?, extendQualifier, Option.getD_some, concat_concat]
    rw [concat_eq, concat_eq]
    simp only [List.cons_append, List.nil_append, List.flatMap_cons, List.flatMap_nil,
      parts_concat, List.append_nil]

theorem helper_text {v : Value} (h : v = .undefined ∨ IsHelperText v) :
    v = .undefined ∨ v.IsText :=
  h.imp_right IsHelperText.isText

theorem inside_fuse {outermost : Frame}
    (hs : outermost.stem = .undefined ∨ IsHelperText outermost.stem) (path path' : String)
    {outer inner : ScopeOptions} (ho : outer.Valid) (hi : inner.Valid)
    (bare : outer.group.layout = none) :
    outermost.inside (Path.join path path') (outer.fuse inner) =
      { (outermost.inside path outer).inside path' inner with
        group := outer.group.overlay inner.group } := by
  have stem := joinPresent_assoc "_" (helper_text hs) (helper_text ho.stem) (helper_text hi.stem)
  have group : (outer.fuse inner).group = outer.group.overlay inner.group := by
    simp [ScopeOptions.fuse, GroupOptions.overlay, bare]
  simp only [Frame.inside, Path.join_join, extendQualifier_fuse _ ho hi, stem, group]
  rfl

theorem enterScope_valid {w : Workshop} (unfinished : w.draft.finished = false)
    (hs : w.draft.current.stem = .undefined ∨ IsHelperText w.draft.current.stem) {path : String}
    (rooted : Path.isRooted path) {options : Value} {asked : ScopeOptions}
    (read : ScopeOptions.ofValue options = .ok asked) (valid : asked.Valid) :
    ∃ journal, journal.board = w.journal.board ∧
      Drafting.enterScope path options w =
        .ok () ⟨w.draft.into (w.draft.current.inside path asked), journal⟩ := by
  have entered := enter_valid hs rooted read valid
  have stem : (w.draft.current.inside path asked).stem.holdsBigint = false := by
    rcases helper_text (joinPresent_stem hs valid.stem) with h | ⟨s, h⟩ <;>
      rw [Frame.inside, h] <;> rfl
  generalize w.draft.current.inside path asked = frame at entered stem ⊢
  have plain := Trace.scopeEntered_plain frame.path frame.qualifier stem
  obtain ⟨journal, noted⟩ := Trace.noteAll_ok (List.forall_mem_singleton.mpr plain) w.journal
  have board := Trace.noteAll_board w.journal
    [.scopeEntered frame.path frame.qualifier frame.stem]
  rw [noted] at board
  refine ⟨journal, board, ?_⟩
  rw [Drafting.enterScope, bind_run, Drafting.requireOpen_run, unfinished]
  simp only [Bool.false_eq_true, if_false, bind_run, Drafting.draft_run, Drafting.check_run,
    entered, Drafting.note_run, noted]
  rfl

end Router

namespace Session
open Router Live

theorem run_scope_opened {path : String} {options : Value} {w inner : Workshop}
    (opened : Drafting.enterScope path options w = .ok () inner) (propagate : Bool)
    (body : List Step) :
    let (report, ended) := runBody propagate body inner
    Step.run (.scope path options propagate body) w =
      scopeOutcome (.ok report (backOn w.draft ended)) := by
  rw [Step.run, scope_opened opened (runBody_isBody propagate body)]
  rfl

theorem run_scope_single {path : String} {options : Value} {w inner : Workshop}
    (opened : Drafting.enterScope path options w = .ok () inner) (propagate : Bool) (step : Step) :
    Step.run (.scope path options propagate [step]) w =
      (match propagate, (step.run inner).1.fault? with
        | true, some fault => .failed fault (some [(step.run inner).1])
        | _, _ => .scope [(step.run inner).1],
      backOn w.draft (step.run inner).2) := by
  have ran := run_scope_opened opened propagate [step]
  simp only [runBody] at ran
  rw [ran]
  cases propagate with
  | false => rfl
  | true => cases (step.run inner).1.fault? <;> rfl

theorem opened_alike {w : Workshop} (reachable : Reachable w.draft)
    (unfinished : w.draft.finished = false) {path path' : String} (rooted : Path.isRooted path)
    (rooted' : Path.isRooted path') {options options' single : Value}
    {outer inner : ScopeOptions} (read : ScopeOptions.ofValue options = .ok outer)
    (read' : ScopeOptions.ofValue options' = .ok inner)
    (fused : ScopeOptions.ofValue single = .ok (outer.fuse inner)) (valid : outer.Valid)
    (valid' : inner.Valid) (bare : outer.group.layout = none) :
    ∃ middle within within', Drafting.enterScope path options w = .ok () middle ∧
      Drafting.enterScope path' options' middle = .ok () within ∧
      Drafting.enterScope (Path.join path path') single w = .ok () within' ∧
      Workshop.Alike (w.draft.current :: w.draft.enclosing) within within' := by
  have stem := ((reachable_sound reachable).frames w.draft.current (by simp [Draft.frames])).stem
  obtain ⟨journal, board, opened⟩ := enterScope_valid unfinished stem rooted read valid
  let middle : Workshop := ⟨w.draft.into (w.draft.current.inside path outer), journal⟩
  obtain ⟨journal', board', opened'⟩ := enterScope_valid (w := middle) unfinished
    (joinPresent_stem stem valid.stem) rooted' read' valid'
  obtain ⟨_, once, single⟩ := enterScope_valid unfinished stem (Path.join_rooted path path') fused
    (fuse_valid valid valid')
  refine ⟨middle, _, _, opened, opened', single, ?_, ?_⟩
  · rw [inside_fuse stem path path' valid valid' bare]
    exact ⟨.here _ _ rfl bare, rfl⟩
  · exact once.trans (board'.trans board).symm

/-- A scope that stands alone in another one may be fused with it, wherever the two are opened: both
ways the scopes are opened, every body has the same answers and faults, and the same draft is left
behind. For the steps of a program, the outcome of the fused scope is the one that the inner scope
had. -/
theorem scope_fusion {w : Workshop} (reachable : Reachable w.draft)
    (unfinished : w.draft.finished = false) {path path' : String} (rooted : Path.isRooted path)
    (rooted' : Path.isRooted path') {options options' : Value} {outer inner : ScopeOptions}
    (read : ScopeOptions.ofValue options = .ok outer)
    (read' : ScopeOptions.ofValue options' = .ok inner) (valid : outer.Valid)
    (valid' : inner.Valid) (bare : outer.group.layout = none) :
    ScopeOptions.ofValue (outer.fuse inner).toValue = .ok (outer.fuse inner) ∧
      ∀ {single : Value}, ScopeOptions.ofValue single = .ok (outer.fuse inner) →
        (∃ within, (do Drafting.enterScope path options; Drafting.enterScope path' options') w =
          .ok () within) ∧
        (∃ within, Drafting.enterScope (Path.join path path') single w = .ok () within) ∧
        (∀ {α : Type} {m : Drafting α}, Body m →
          Matches (fun left left' => left.draft = left'.draft)
            (Drafting.scope path options (Drafting.scope path' options' m) w)
            (Drafting.scope (Path.join path path') single m w)) ∧
        ∀ (propagate propagate' : Bool) (body : List Step),
          let one := Step.run (.scope (Path.join path path') single propagate' body) w
          let two := Step.run
            (.scope path options propagate [.scope path' options' propagate' body]) w
          two.2.draft = one.2.draft ∧
            two.1 = match propagate, one.1.fault? with
              | true, some fault => .failed fault (some [one.1])
              | _, _ => .scope [one.1] := by
  refine ⟨ScopeOptions.ofValue_toValue ?_ ?_, ?_⟩
  · exact (ScopeOptions.truthy_of_read read').1
  · intro v hv
    have given : inner.group.container = some v ∨ outer.group.container = some v := by
      simp only [ScopeOptions.fuse] at hv
      cases h : inner.group.container with
      | none => rw [h] at hv; exact .inr hv
      | some _ => rw [h] at hv; exact .inl hv
    exact given.elim ((ScopeOptions.truthy_of_read read').2 v)
      ((ScopeOptions.truthy_of_read read).2 v)
  intro single fused
  obtain ⟨middle, within, within', opened, opened', once, alike⟩ :=
    opened_alike reachable unfinished rooted rooted' read read' fused valid valid' bare
  refine ⟨⟨within, ?_⟩, ⟨within', once⟩, ?_, ?_⟩
  · rw [bind_run, opened]
    exact opened'
  · intro α m body
    have ran := body.parallel _ within within' alike
    rw [scope_opened opened (body.scope path' options'), scope_opened opened' body,
      scope_opened once body]
    generalize m within = r, m within' = r' at ran
    cases ran with
    | ok a same => exact .ok a (backOn_alike same w.draft)
    | error fault same => exact .error fault (backOn_alike same w.draft)
  · intro propagate propagate' body
    have ran := (runBody_isBody propagate' body).parallel _ within within' alike
    have inner := run_scope_opened opened' propagate' body
    have one := run_scope_opened once propagate' body
    have two := run_scope_single opened propagate (.scope path' options' propagate' body)
    rw [Drafting.total, Drafting.total] at ran
    generalize runBody propagate' body within = r, runBody propagate' body within' = r'
      at ran inner one
    obtain ⟨report, ended⟩ := r
    obtain ⟨report', ended'⟩ := r'
    cases ran with
    | ok _ same =>
      have outcome : (Step.run (.scope path' options' propagate' body) middle).1 =
          (Step.run (.scope (Path.join path path') single propagate' body) w).1 := by
        rw [inner, one]
        rcases report with ⟨outcomes, _ | fault⟩ <;> rfl
      simp only
      rw [two, outcome, inner, one, scopeOutcome_draft, scopeOutcome_draft]
      exact ⟨backOn_alike same w.draft, rfl⟩

theorem scope_fusion_raising :
    ∃ (w : Workshop) (options options' single : Value) (outer inner : ScopeOptions)
      (body : List Step), Reachable w.draft ∧ w.draft.finished = false ∧
      ScopeOptions.ofValue options = .ok outer ∧ ScopeOptions.ofValue options' = .ok inner ∧
      outer.Valid ∧ inner.Valid ∧ outer.group.layout = none ∧
      ScopeOptions.ofValue single = .ok (outer.fuse inner) ∧
      let one := Step.run (.scope (Path.join "/users/" "/:id") single true body) w
      let two := Step.run (.scope "/users/" options false [.scope "/:id" options' true body]) w
      two.2.draft = one.2.draft ∧ two.1 = .scope [one.1] ∧
        (one.1.spread.filterMap fun
          | .value v => some ((Value.field v.ownFields "session").ownFields.map (·.1),
              ((Value.field v.ownFields "layout").item 0).text)
          | _ => none) =
          [(["a", "b", "c"], "App.EditView"), (["a", "b", "c"], "App.PageView")] ∧
        one.2.draft.entries.map (fun e => (e.path, e.helper.text, e.handler, e.pipes)) =
          [("/admin/users/:id/log", "admin_user_edit_log", "Admin.Edit.Log.LogController",
            ["browser", "browser"])] := by
  -- In a scope with names and data of its own, two scopes and a body that is ended by a fault in
  -- one more scope. What was piped through there has put its layout over that of the scopes around.
  let journal : Trace.Journal := ⟨.fresh none {} .epoch, []⟩
  let view : Value := .array [.string "App.EditView", .string "modal"]
  let around : Value := .record
    [("alias", .string "Admin"), ("as", .string "admin"), ("session", .record [("a", .null)])]
  let options : Value := .record
    [("as", .string "user"), ("session", .record [("b", .bool false), ("a", .bool true)])]
  let options' : Value := .record
    [("alias", .string "Edit"), ("as", .string "edit"),
      ("session", .record [("c", .null), ("b", .null)]), ("layout", view)]
  let single : Value := .record
    [("alias", .string "Edit"), ("as", .string "user_edit"), ("layout", view),
      ("session", .record [("b", .null), ("a", .bool true), ("c", .null)])]
  let outer : ScopeOptions := {
    stem := .string "user"
    group := { session := some [("b", .bool false), ("a", .bool true)] } }
  let inner : ScopeOptions := {
    qualifier := .string "Edit"
    stem := .string "edit"
    group := { session := some [("c", .null), ("b", .null)], layout := some view } }
  let add (path handler : String) : Step :=
    .operation (.add "GET" path handler "index" .undefined)
  let body : List Step :=
    [.operation (.pipe ["browser"]),
      .operation .inherited,
      .scope "/log" (.string "Log") true [
        .operation (.pipe ["browser"]),
        add "/" "LogController",
        .operation .inherited,
        .operation (.raise "boom")],
      add "/late" "LateController"]
  let plug : Plug := .layout ⟨.string "App.PageView", .string "live"⟩
  let start : Draft := { name := "App.Router", handlerSuffix := .string "Controller" }
  let first : Draft := leftBy (Operation.pipeline "browser" [plug]).perform start journal
  let second : Draft := leftBy (Drafting.enterScope "/admin/" around) first journal
  let w : Workshop := ⟨second, journal⟩
  have reachable : Reachable w.draft := by
    have plugs : (Operation.pipeline "browser" [plug]).Typed := by
      simp [Operation.Typed, plug, Plug.Typed, Value.IsText]
    have scope : around.IsScopeOptions := by
      refine .inr ⟨.ordinary, _, rfl, .inr ⟨"Admin", rfl⟩, .inr ⟨"admin", rfl⟩, .inl rfl, ?_,
        .inl rfl⟩
      exact .inr ⟨.ordinary, _, rfl, List.nodup_singleton "a"⟩
    exact ⟨"App.Router", {}, start, ⟨"Controller", rfl⟩, if_pos (by decide),
      (Relation.ReflTransGen.single (.operate journal plugs)).tail
        (.enter "/admin/" journal scope)⟩
  have unfinished : w.draft.finished = false := by
    simp only [w, second, first, start, journal, around, plug]
    decide +kernel
  have valid : outer.Valid := ⟨.inl rfl, .inr ⟨"user", rfl, by decide⟩⟩
  have valid' : inner.Valid := ⟨.inr ⟨"Edit", rfl, by decide⟩, .inr ⟨"edit", rfl, by decide⟩⟩
  have fused : ScopeOptions.ofValue single = .ok (outer.fuse inner) := by
    have session : GroupOptions.overlaySession outer.group.session inner.group.session =
        some [("b", .null), ("a", .bool true), ("c", .null)] := by
      rfl
    rw [ScopeOptions.fuse, session]
    rfl
  have read : ScopeOptions.ofValue options = .ok outer := rfl
  have read' : ScopeOptions.ofValue options' = .ok inner := rfl
  have rooted : Path.isRooted "/users/" := by decide
  have rooted' : Path.isRooted "/:id" := by decide
  obtain ⟨-, same⟩ :=
    scope_fusion reachable unfinished rooted rooted' read read' valid valid' rfl
  obtain ⟨-, -, -, steps⟩ := same fused
  obtain ⟨draft, outcome⟩ := steps false true body
  refine ⟨w, options, options', single, outer, inner, body, reachable, unfinished, read, read',
    valid, valid', rfl, fused, draft, outcome, ?_, ?_⟩
  · simp only [w, second, first, start, journal, around, plug, single, body, view, add]
    decide +kernel
  · simp only [w, second, first, start, journal, around, plug, single, body, view, add]
    decide +kernel

end Session

end ViewRouting
