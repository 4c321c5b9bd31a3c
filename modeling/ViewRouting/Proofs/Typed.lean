import ViewRouting.Proofs.Checks
import ViewRouting.Session.Program

/-! Arguments of typed callers. The router takes values as they come; these are the shapes that it
asks its callers for. A field that may be left out may also be undefined. -/

namespace ViewRouting

namespace Record

/-- No name stands twice, as in every object. -/
def Distinct {α : Type} (r : Record α) : Prop :=
  r.names.Nodup

end Record

namespace Value

def IsText (v : Value) : Prop :=
  ∃ s, v = .string s

def IsBool (v : Value) : Prop :=
  ∃ b, v = .bool b

def IsMap (v : Value) : Prop :=
  ∃ kind fields, v = .object kind fields ∧ Record.Distinct fields

def IsLayout (v : Value) : Prop :=
  ∃ view template, v = .array [.string view, .string template]

def IsContainer (v : Value) : Prop :=
  ∃ tag kind attributes, v = .array [.string tag, .object kind attributes] ∧
    Record.Distinct attributes ∧ ∀ a ∈ attributes, a.2.IsText

def Optional (shape : Value → Prop) (fields : Record Value) (name : String) : Prop :=
  field fields name = .undefined ∨ shape (field fields name)

structure HasGroup (fields : Record Value) : Prop where
  layout : Optional IsLayout fields "layout"
  session : Optional IsMap fields "session"
  container : Optional IsContainer fields "container"

/-- A qualifier, or a bag with a qualifier, a stem and group options. -/
def IsScopeOptions (v : Value) : Prop :=
  v.IsText ∨ ∃ kind fields, v = .object kind fields ∧ Optional IsText fields "alias" ∧
    Optional IsText fields "as" ∧ HasGroup fields

def IsAddOptions (v : Value) : Prop :=
  v = .undefined ∨ ∃ kind fields, v = .object kind fields ∧ Optional IsText fields "as" ∧
    Optional IsBool fields "alias" ∧ Optional IsMap fields "private" ∧
    Optional IsMap fields "metadata"

def IsConfig (v : Value) : Prop :=
  v = .undefined ∨ ∃ kind fields, v = .object kind fields ∧
    ∀ key : ConventionKey, Optional IsText fields key.name

end Value

structure GroupOptions.Typed (o : GroupOptions) : Prop where
  layout : ∀ v, o.layout = some v → v.IsLayout
  session : ∀ r, o.session = some r → Record.Distinct r
  container : ∀ v, o.container = some v → v.IsContainer

namespace Router

def Plug.Typed : Plug → Prop
  | .named _ _ => True
  | .layout l => l.view.IsText ∧ l.template.IsText

def RouterOptions.Typed (o : RouterOptions) : Prop :=
  o.handlerSuffix.IsText

end Router

namespace Live

/-- Conventions that were checked, given as texts. -/
structure Conventions.Normal (c : Conventions) : Prop where
  liveSuffix : ∃ s, c.liveSuffix = .string s ∧ Conventions.isCapitalizedWord s
  impliedHelper : ∃ s, c.impliedHelper = .string s ∧ Naming.isHelper s
  layoutSegment : Conventions.isSingleSegment c.layoutSegment
  layoutTemplate : ∃ s, c.layoutTemplate = .string s ∧ s ≠ ""
  handler : Naming.isDotted c.handler

/-- Conventions as typed callers can have them: read off a bag of texts and checked. -/
def Conventions.Normalized (c : Conventions) : Prop :=
  ∃ v : Value, v.IsConfig ∧ Conventions.ofValue v = .ok c

end Live

namespace Session
open Router Live

/-- The options of a live statement are checked where it is described, so that they may be any
value. -/
def Operation.Typed : Operation → Prop
  | .pipeline _ plugs => ∀ plug ∈ plugs, plug.Typed
  | .add _ _ _ _ options => options.IsAddOptions
  | .register conventions _ | .describe conventions _ => conventions.Normalized
  | _ => True

mutual
def Step.Typed : Step → Prop
  | .operation operation => operation.Typed
  | .scope _ options _ body => options.IsScopeOptions ∧ BodyTyped body

def BodyTyped : List Step → Prop
  | [] => True
  | step :: rest => step.Typed ∧ BodyTyped rest
end

end Session

/-! What typed arguments are read as. -/

theorem GroupOptions.typed_empty : ({} : GroupOptions).Typed := by
  constructor <;> intro _ h <;> cases h

namespace Value

theorem truthy?_of_optional {shape : Value → Prop} {fields : Record Value} {name : String}
    (h : Optional shape fields name) {v : Value} (hv : (field fields name).truthy? = some v) :
    shape v := by
  rw [truthy?] at hv
  split at hv
  · next truthy =>
    cases hv
    rcases h with h | h
    · rw [h] at truthy
      cases truthy
    · exact h
  · cases hv

theorem HasGroup.typed {fields : Record Value} (h : HasGroup fields) :
    (GroupOptions.ofFields fields).Typed where
  layout _ hv := truthy?_of_optional h.layout hv
  session r hr := by
    obtain ⟨v, hv, rfl⟩ := Option.map_eq_some_iff.mp hr
    obtain ⟨kind, r, rfl, distinct⟩ := truthy?_of_optional h.session hv
    exact distinct
  container _ hv := truthy?_of_optional h.container hv

end Value

namespace Router

theorem Plug.Typed.group {p : Plug} (h : p.Typed) : p.group.Typed := by
  cases p with
  | named name options => exact GroupOptions.typed_empty
  | layout l =>
    obtain ⟨⟨view, hv⟩, ⟨template, ht⟩⟩ := h
    constructor <;> intro v hl <;> cases hl
    exact ⟨view, template, by rw [Layout.toValue, hv, ht]⟩

structure ScopeOptions.Typed (o : ScopeOptions) : Prop where
  qualifier : o.qualifier = .undefined ∨ o.qualifier.IsText
  stem : o.stem = .undefined ∨ o.stem.IsText
  group : o.group.Typed

theorem ScopeOptions.typed_ofValue {v : Value} (h : v.IsScopeOptions) {o : ScopeOptions}
    (ho : ScopeOptions.ofValue v = .ok o) : o.Typed := by
  rcases h with ⟨s, rfl⟩ | ⟨kind, fields, rfl, qualifier, stem, group⟩
  · cases ho
    exact ⟨.inr ⟨s, rfl⟩, .inl rfl, GroupOptions.typed_empty⟩
  · cases ho
    exact ⟨qualifier, stem, group.typed⟩

theorem AddOptions.helper_ofValue {v : Value} (h : v.IsAddOptions) {o : AddOptions}
    (ho : AddOptions.ofValue v = .ok o) : o.helper = .undefined ∨ o.helper.IsText := by
  rcases h with rfl | ⟨kind, fields, rfl, helper, -⟩
  · cases ho
    exact .inl rfl
  · cases ho
    exact helper

end Router

namespace Live.Conventions

theorem requireText_ok {key : ConventionKey} {admits : String → Bool} {given v : Value}
    (text : given.IsText) (h : requireText key admits given = .ok v) :
    ∃ s, v = .string s ∧ admits s := by
  obtain ⟨s, rfl⟩ := text
  obtain ⟨read, hs, h⟩ := bind_ok.mp h
  cases hs
  split at h
  · next admitted =>
    cases h
    exact ⟨s, rfl, admitted⟩
  · obtain ⟨_, -, h⟩ := bind_ok.mp h
    cases h

theorem requireDotted_ok {key : ConventionKey} {admits : String → Bool} {given : Value}
    {s : String} (h : requireDotted key admits given = .ok s) : admits s := by
  obtain ⟨read, -, h⟩ := bind_ok.mp h
  split at h
  · next found =>
    cases h
    exact (Option.filter_eq_some_iff.mp found).2
  · obtain ⟨_, -, h⟩ := bind_ok.mp h
    cases h

theorem requireTruthy_ok {key : ConventionKey} {given v : Value} (text : given.IsText)
    (h : requireTruthy key given = .ok v) : ∃ s, v = .string s ∧ s ≠ "" := by
  obtain ⟨s, rfl⟩ := text
  rw [requireTruthy] at h
  split at h
  · next truthy =>
    cases h
    exact ⟨s, rfl, by simpa [Value.isTruthy] using truthy⟩
  · obtain ⟨_, -, h⟩ := bind_ok.mp h
    cases h

theorem text_given {fields : Record Value} (key : ConventionKey)
    (text : Value.Optional Value.IsText fields key.name) :
    ((Value.field fields key.name).orElse (get {} key)).IsText := by
  rcases text with h | ⟨s, h⟩
  · rw [h]
    cases key <;> exact ⟨_, rfl⟩
  · exact ⟨s, by rw [h]; rfl⟩

theorem normalized_default : Normalized {} :=
  ⟨.undefined, .inl rfl, rfl⟩

theorem Normalized.normal {c : Conventions} (h : c.Normalized) : c.Normal := by
  obtain ⟨v, rfl | ⟨kind, fields, rfl, texts⟩, read⟩ := h
  · cases read
    exact ⟨⟨"Live", rfl, by decide⟩, ⟨"live", rfl, by decide⟩, by decide, ⟨"app", rfl, by decide⟩,
      by decide⟩
  · obtain ⟨liveSuffix, hs, read⟩ := bind_ok.mp read
    obtain ⟨impliedHelper, hi, read⟩ := bind_ok.mp read
    obtain ⟨layoutSegment, hl, read⟩ := bind_ok.mp read
    obtain ⟨layoutTemplate, ht, read⟩ := bind_ok.mp read
    obtain ⟨handler, hh, read⟩ := bind_ok.mp read
    cases read
    exact {
      liveSuffix := requireText_ok (text_given .liveSuffix (texts _)) hs
      impliedHelper := requireText_ok (text_given .impliedHelper (texts _)) hi
      layoutSegment := requireDotted_ok hl
      layoutTemplate := requireTruthy_ok (text_given .layoutTemplate (texts _)) ht
      handler := requireDotted_ok hh }

end Live.Conventions

end ViewRouting
