import ViewRouting.Live.Registration
import ViewRouting.Proofs.HelperNames
import ViewRouting.Proofs.Typed

/-! What a live statement is described as. The checks of its options accept what the grammar of
options says and nothing else, and once the view, the options, the action and the helper are settled
the descriptor is there. -/

namespace ViewRouting.Live
open Naming

def IsOwnLayout (v : Value) : Prop :=
  ∃ view template, v = .array [.string view, .string template] ∧ isDotted view ∧ template ≠ ""

def IsOwnContainer (v : Value) : Prop :=
  ∃ tag kind attributes, v = .array [.string tag, .object kind attributes] ∧ isTag tag ∧
    ∀ a ∈ attributes, a.2.IsText

/-- The grammar of the options of a live route; one that is undefined counts as left out. -/
structure Grammatical (bag : Record Value) : Prop where
  known : ∀ name ∈ bag.names, name ∈ optionNames
  session : ∀ v, Value.present? bag "session" = some v → ∃ kind fields, v = .object kind fields
  layout : ∀ v, Value.present? bag "layout" = some v → IsOwnLayout v
  container : ∀ v, Value.present? bag "container" = some v → IsOwnContainer v
  helper : ∀ v, Value.present? bag "as" = some v → ∃ s, v = .string s ∧ isHelper s

def IsOptions (v : Value) : Prop :=
  ∃ kind bag, v = .object kind bag ∧ Grammatical bag

/-! The checks of the options. -/

section Options
variable (view : String)

theorem isText_iff {v : Value} : v.asString?.isSome ↔ v.IsText := by
  cases v <;> simp [Value.asString?, Value.IsText]

theorem isPlain_iff {v : Value} :
    v.plainFields?.isSome ↔ ∃ kind fields, v = .object kind fields := by
  cases v <;> simp [Value.plainFields?]

theorem isLayout_iff {v : Value} : isLayout v ↔ IsOwnLayout v := by
  unfold isLayout IsOwnLayout
  split
  · simp
  · next other =>
    simp only [Bool.false_eq_true, false_iff]
    rintro ⟨view, template, rfl, -⟩
    exact other view template rfl

theorem isTextMap_iff {v : Value} :
    isTextMap v ↔ ∃ kind fields, v = .object kind fields ∧ ∀ a ∈ fields, a.2.IsText := by
  cases v <;> simp [isTextMap, Value.plainFields?, isText_iff]

def RefusesOptions (v : Value) (fault : Fault) : Prop :=
  v.holdsBigint = false → fault.code? = some "LIVE_INVALID_OPTION"

def ComplainsOfOptions (raises : Fault → Prop) : Prop :=
  ∀ fault : LiveFault, fault.code = "LIVE_INVALID_OPTION" → fault.view? = some view →
    raises (.live fault)

variable (v : Value) {view} {raises : Fault → Prop}

theorem refuses_complains : ComplainsOfOptions view (RefusesOptions v) := by
  intro fault code _ _
  rw [Fault.code?, code]

theorem requireSession_guards (raised : ComplainsOfOptions view raises) (o : Option Value) :
    Guards ((requireSession view o).mapError .live) raises
      (∀ v, o = some v → ∃ kind fields, v = .object kind fields) := by
  cases o with
  | none => exact .absent ()
  | some session =>
    apply Guards.present
    simp only [← isPlain_iff]
    exact .test _ _ (raised _ rfl rfl)

theorem requireLayout_guards (raised : ComplainsOfOptions view raises) (o : Option Value) :
    Guards ((requireLayout view o).mapError .live) raises
      (∀ v, o = some v → IsOwnLayout v) := by
  cases o with
  | none => exact .absent ()
  | some layout =>
    apply Guards.present
    simp only [← isLayout_iff]
    exact .test _ _ (raised _ rfl rfl)

theorem requireContainer_guards (raised : ComplainsOfOptions view raises) (o : Option Value) :
    Guards ((requireContainer view o).mapError .live) raises
      (∀ v, o = some v → IsOwnContainer v) := by
  unfold requireContainer
  split
  · exact .absent ()
  · next tag attributes =>
    apply Guards.present
    have right : IsOwnContainer (.array [.string tag, attributes]) ↔
        isTag tag ∧ isTextMap attributes := by
      rw [isTextMap_iff]
      constructor
      · rintro ⟨tag, kind, fields, h, ht, hf⟩
        cases h
        exact ⟨ht, kind, fields, rfl, hf⟩
      · rintro ⟨ht, kind, fields, rfl, hf⟩
        exact ⟨tag, kind, fields, rfl, ht, hf⟩
    rw [right]
    cases ht : isTag tag with
    | true =>
      have wrong := raised (.containerAttributesInvalid view) rfl rfl
      exact (Guards.test (isTextMap attributes) _ wrong).iff (by simp)
    | false => exact ⟨fun h => absurd h.1 (by simp), fun _ => ⟨_, rfl, raised _ rfl rfl⟩⟩
  · next container other =>
    apply Guards.present
    refine ⟨?_, fun _ => ⟨_, rfl, raised _ rfl rfl⟩⟩
    rintro ⟨tag, kind, attributes, rfl, -⟩
    exact (other tag _ rfl).elim

theorem requireHelper_guards (raised : ComplainsOfOptions view raises) {o : Option Value}
    (unshown : ∀ w, o = some w → w.holdsBigint → raises .unserializable) :
    Guards (requireHelper view o) raises
      (∀ v, o = some v → ∃ s, v = .string s ∧ isHelper s) := by
  cases o with
  | none => exact .absent ()
  | some helper =>
    apply Guards.present
    have right : (helper.asString?.filter isHelper).isSome ↔
        ∃ s, helper = .string s ∧ isHelper s := by
      cases helper <;> simp [Value.asString?]
    rw [← right, requireHelper]
    split
    · next h => exact (Guards.pure ()).iff (by simp [h])
    · next h =>
      exact .complain (fun _ => raised _ rfl rfl) (unshown helper rfl) h

theorem holdsBigint_field {fields : Record Value} {name : String}
    (h : (Value.field fields name).holdsBigint) : Value.anyFieldHoldsBigint fields := by
  induction fields with
  | nil => simp [Value.field, Record.get?, Value.holdsBigint] at h
  | cons f rest ih =>
    obtain ⟨key, w⟩ := f
    rw [Value.anyFieldHoldsBigint, Bool.or_eq_true]
    rw [Value.field, Record.get?, List.lookup_cons] at h
    cases hk : name == key with
    | true => exact .inl (by simpa [hk] using h)
    | false => exact .inr (ih (by simpa [Value.field, Record.get?, hk] using h))

theorem holdsBigint_present {kind : ObjectKind} {fields : Record Value} {name : String} {w : Value}
    (hw : Value.present? fields name = some w) (h : w.holdsBigint) :
    (Value.object kind fields).holdsBigint := by
  rw [Value.holdsBigint]
  apply @holdsBigint_field fields name
  unfold Value.present? Value.defined? at hw
  split at hw
  · cases hw
  · cases hw
    exact h

theorem requireOptions_guards (view : String) (v : Value) :
    Guards (requireOptions view v) (RefusesOptions v) (IsOptions v) := by
  cases v with
  | object kind bag =>
    have right : IsOptions (.object kind bag) ↔
        (((Record.names bag).filter fun name => !optionNames.contains name) != []) = false ∧
          (∀ v, Value.present? bag "session" = some v → ∃ kind fields, v = .object kind fields) ∧
          (∀ v, Value.present? bag "layout" = some v → IsOwnLayout v) ∧
          (∀ v, Value.present? bag "container" = some v → IsOwnContainer v) ∧
          (∀ v, Value.present? bag "as" = some v → ∃ s, v = .string s ∧ isHelper s) ∧ True := by
      constructor
      · rintro ⟨_, _, h, known, session, layout, container, helper⟩
        cases h
        exact ⟨by simpa using known, session, layout, container, helper, trivial⟩
      · rintro ⟨known, session, layout, container, helper, -⟩
        exact ⟨kind, bag, rfl, by simpa using known, session, layout, container, helper⟩
    rw [right, requireOptions]
    simp only [Value.plainFields?]
    have raised : ComplainsOfOptions view (RefusesOptions (.object kind bag)) :=
      refuses_complains _
    refine .refuse rfl (raised _ rfl rfl) ?_
    exact (requireSession_guards raised _).bind fun _ _ =>
      (requireLayout_guards raised _).bind fun _ _ =>
      (requireContainer_guards raised _).bind fun _ _ =>
      (requireHelper_guards raised fun _ present big plain => by
        rw [holdsBigint_present present big] at plain
        cases plain).bind fun _ _ => .pure bag
  | _ =>
    refine ⟨?_, fun _ => ⟨.live (.optionsNotPlain view), rfl, fun _ => rfl⟩⟩
    rintro ⟨kind, bag, h, -⟩
    cases h

theorem requireOptions_ok {view : String} {v : Value} {bag : Record Value}
    (h : requireOptions view v = .ok bag) : ∃ kind, v = .object kind bag ∧ Grammatical bag := by
  obtain ⟨kind, fields, rfl, grammatical⟩ := (requireOptions_guards view v).right_of_ok h
  have same : fields = bag := by
    simp only [requireOptions, Value.plainFields?] at h
    split at h
    · cases h
    · obtain ⟨_, -, h⟩ := bind_ok.mp h
      obtain ⟨_, -, h⟩ := bind_ok.mp h
      obtain ⟨_, -, h⟩ := bind_ok.mp h
      obtain ⟨_, -, h⟩ := bind_ok.mp h
      cases h
      rfl
  subst same
  exact ⟨kind, rfl, grammatical⟩

end Options

/-! The view and the helper. -/

theorem requireView_guards (view : String) :
    Guards ((requireView view).mapError .live) (fun fault => fault.code? = some "LIVE_INVALID_VIEW")
      (isDotted view) :=
  .test _ _ rfl

theorem settleHelper_valid {c : Conventions} (normal : c.Normal) {own : Record Value}
    (grammatical : Grammatical own) {view : String} (dotted : isDotted view)
    {action : Option Value} {helper : Observed Value}
    (h : settleHelper c view action (Value.present? own "as") = .ok helper) :
    IsHelperText helper.value := by
  cases hg : Value.present? own "as" with
  | some given =>
    rw [hg] at h
    cases h
    exact grammatical.helper given hg
  | none =>
    rw [hg] at h
    cases action with
    | none =>
      cases h
      exact normal.impliedHelper
    | some action =>
      obtain ⟨suffix, hc, -⟩ := normal.liveSuffix
      by_cases names : NamesHelper suffix view
      · obtain ⟨name, valid, inferred⟩ := helperFor_inferred hc dotted names action
        rw [settleHelper, inferred] at h
        cases h
        exact ⟨name, rfl, valid⟩
      · rw [settleHelper, helperFor_refused hc dotted names action] at h
        cases h

/-! The descriptor. -/

/-- The descriptor of a declaration whose options are `own` and whose helper is settled. -/
def described (c : Conventions) (host : Host) (d : Declaration) (own : Record Value)
    (helper : Observed Value) : Observed Descriptor :=
  let view := host.qualify d.view
  let given := RouteOptions.merge host.inherited own
  let inferred := layoutBeside c host.name
  let layout := given.layout.getD inferred.value
  { value := {
      path := d.path
      action := d.action
      helper := helper.value
      targetView := view
      layout := layout
      privateData := ⟨view, {
        given := given
        router := host.name
        action := d.action
        inferredLayout := inferred.value
        layout := layout }⟩
      publicData := ⟨view, d.action⟩ }
    events := helper.events ++ inferred.events
      ++ [.descriptorBuilt d.path view d.action helper.value layout.view] }

theorem describe_eq (c : Conventions) (host : Host) (d : Declaration) :
    describe c host d = do
      (requireView d.view).mapError .live
      let own ← requireOptions d.view (d.options.orElse (.record []))
      d.action.forM (requireAction d.view)
      let helper ← (settleHelper c (host.qualify d.view) d.action
        (Value.present? own "as")).mapError .live
      return described c host d own helper := by
  obtain ⟨path, view, action, options⟩ := d
  rw [describe]
  cases action <;> rfl

theorem describe_ok {c : Conventions} {host : Host} {d : Declaration} {built : Observed Descriptor}
    (h : describe c host d = .ok built) :
    isDotted d.view ∧ ∃ own helper,
      (∃ kind, d.options.orElse (.record []) = .object kind own) ∧ Grammatical own ∧
      settleHelper c (host.qualify d.view) d.action (Value.present? own "as") = .ok helper ∧
      built = described c host d own helper := by
  rw [describe_eq] at h
  obtain ⟨_, hv, h⟩ := bind_ok.mp h
  obtain ⟨own, ho, h⟩ := bind_ok.mp h
  obtain ⟨_, -, h⟩ := bind_ok.mp h
  obtain ⟨helper, hh, h⟩ := bind_ok.mp h
  cases h
  obtain ⟨kind, given, grammatical⟩ := requireOptions_ok ho
  exact ⟨(requireView_guards _).right_of_ok hv, own, helper, ⟨kind, given⟩, grammatical,
    mapError_ok.mp hh, rfl⟩

end ViewRouting.Live
