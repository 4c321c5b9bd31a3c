import ViewRouting.Live.Declaration
import ViewRouting.Live.Conventions
import ViewRouting.Options

/-! Descriptors: live statements with everything resolved. The view, the options and the action are
checked in this order, and then the helper is settled; once it is, nothing can fail any more. -/

namespace ViewRouting.Live

/-- What a live statement needs to know of the router it stands in. -/
structure Host where
  name : String
  qualify : String → String
  /-- The bag of options that the scopes around the statement hand down. -/
  inherited : Record Value

def Host.fixed (name qualifier : String) (inherited : Record Value) : Host where
  name := name
  qualify := fun reference => if qualifier = "" then reference else qualifier ++ "." ++ reference
  inherited := inherited

/-- The options of a route as the dispatch layer gets them. -/
structure DispatchOptions where
  /-- Given on the route or by the scopes around it. -/
  given : RouteOptions
  router : String
  action : Option Value
  inferredLayout : Layout
  /-- The layout that the route renders with. -/
  layout : Layout

def actionValue (action : Option Value) : Value :=
  action.getD .null

/-- A given layout keeps its place among the given options. -/
def DispatchOptions.toRecord (o : DispatchOptions) : Record Value :=
  o.given.fields.insertAll [
    ("router", .string o.router),
    ("action", actionValue o.action),
    ("inferredLayout", o.inferredLayout.toValue),
    ("layout", o.layout.toValue)]

structure PrivateData where
  view : String
  options : DispatchOptions

structure PublicData where
  view : String
  action : Option Value

def PrivateData.toValue (d : PrivateData) : Value :=
  .array [.string d.view, .record d.options.toRecord]

def PublicData.toValue (d : PublicData) : Value :=
  .array [.string d.view, actionValue d.action]

structure Descriptor where
  /-- As declared, without the paths of scopes. -/
  path : String
  action : Option Value
  helper : Value
  /-- The view, qualified by the scopes around the statement. -/
  targetView : String
  layout : Layout
  privateData : PrivateData
  publicData : PublicData

/-- The handler of a live route is never taken relative to scopes. -/
def Descriptor.toRecord (d : Descriptor) : Record Value :=
  [("path", .string d.path), ("action", actionValue d.action), ("helperName", d.helper),
    ("targetView", .string d.targetView), ("layout", d.layout.toValue),
    ("privateMetadata", d.privateData.toValue), ("publicMetadata", d.publicData.toValue),
    ("aliasSuppressed", .bool true)]

def requireView (view : String) : Except LiveFault Unit :=
  if Naming.isDotted view then .ok () else .error (.viewNotDotted view)

def requireAction (view : String) (action : Value) : Except Fault Unit := do
  if Naming.isHelper (← Naming.readText action) then return ()
  else throw (.live (.actionNotSnakeCase view (← action.display)))

def settleHelper (conventions : Conventions) (view : String) (action : Option Value)
    (helper : Option Value) : Except LiveFault (Observed Value) :=
  match helper with
  | some helper => .ok ⟨helper, []⟩
  | none => helperFor conventions view action

/-- Undefined and null stand for an empty bag of options. -/
def describe (conventions : Conventions) (host : Host) (d : Declaration) :
    Except Fault (Observed Descriptor) := do
  (requireView d.view).mapError .live
  let own ← requireOptions d.view (d.options.orElse (.record []))
  match d.action with
  | some action => requireAction d.view action
  | none => pure ()
  let view := host.qualify d.view
  let given := RouteOptions.merge host.inherited own
  let helper ← (settleHelper conventions view d.action given.helper).mapError .live
  let inferred := layoutBeside conventions host.name
  let layout := given.layout.getD inferred.value
  let descriptor : Descriptor := {
    path := d.path
    action := d.action
    helper := helper.value
    targetView := view
    layout := layout
    privateData := ⟨view, {
      given := given
      router := host.name
      action := d.action
      inferredLayout := inferred.value
      layout := layout }⟩
    publicData := ⟨view, d.action⟩ }
  return ⟨descriptor, helper.events ++ inferred.events
    ++ [.descriptorBuilt d.path view d.action helper.value layout.view]⟩

end ViewRouting.Live
