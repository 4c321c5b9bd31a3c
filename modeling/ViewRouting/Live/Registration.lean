import ViewRouting.Live.Descriptor
import ViewRouting.Router.Draft

/-! Registration of live routes. A live route is added like any other, with its data stored under
one key, in the private part for dispatch and in the public part for inspection. A route without an
action is registered under its target view, so that paths to it can be built by view. -/

namespace ViewRouting.Live
open Router

def dataKey : String := "liveView"

/-- A route as it is handed to a router. -/
structure Registration where
  verb : String
  path : String
  handler : String
  action : String
  options : AddOptions

def Descriptor.registration (conventions : Conventions) (d : Descriptor) : Registration where
  verb := "GET"
  path := d.path
  handler := conventions.handler
  action := (d.action.map Value.text).getD d.targetView
  options := {
    helper := d.helper
    qualified := false
    dispatchData := [(dataKey, d.privateData.toValue)]
    publicData := [(dataKey, d.publicData.toValue)] }

/-- The action and the options that a described route, checked or not, is added with. -/
def routeArguments (description : Record Value) : Record Value :=
  let entry (name : String) := Value.record [(dataKey, Value.field description name)]
  [("action", (Value.field description "action").orElse (Value.field description "targetView")),
    ("options", .record [
      ("as", Value.field description "helperName"),
      ("private", entry "privateMetadata"),
      ("alias", .bool false),
      ("metadata", entry "publicMetadata")])]

def Host.ofDraft (d : Draft) : Host where
  name := d.name
  qualify := d.qualify
  inherited := d.inherited.fields

/-- The descriptor of a declaration where the draft stands; nothing is added. -/
def describeIn (conventions : Conventions) (d : Declaration) : Drafting Descriptor := do
  let draft ← Drafting.draft
  let built ← Drafting.check id (describe conventions (.ofDraft draft) d)
  Drafting.note built.events
  return built.value

def register (conventions : Conventions) (d : Declaration) : Drafting Descriptor := do
  let descriptor ← describeIn conventions d
  let r := descriptor.registration conventions
  let _ ← Drafting.add r.verb r.path r.handler r.action r.options
  return descriptor

/-! Reading live data back from a route. Routes of other kinds, and foreign data under the live key,
give nothing. -/

structure LiveTarget where
  view : String
  options : Value

def isArray : Value → Bool
  | .array _ => true
  | _ => false

def isDispatchOptions (v : Value) : Bool :=
  match v.plainFields? with
  | some fields =>
    (Value.field fields "router").asString?.isSome && isArray (Value.field fields "layout")
  | none => false

def liveTarget? (e : Entry) : Option LiveTarget :=
  match Value.field e.dispatchData dataKey with
  | .array [.string view, options] =>
    if isDispatchOptions options then some ⟨view, options⟩ else none
  | _ => none

def livePublic? (e : Entry) : Option PublicData :=
  match Value.field e.publicData dataKey with
  | .array [.string view, .null] => some ⟨view, none⟩
  | .array [.string view, .string action] => some ⟨view, some (.string action)⟩
  | _ => none

end ViewRouting.Live
