import ViewRouting.Path

/-! Routes of a table, and the options that a route is added with. -/

namespace ViewRouting.Router

structure Entry where
  verb : String
  path : String
  handler : String
  action : String
  /-- A text, except where the helper was given as another value and no scope has a stem. -/
  helper : Value
  /-- Pipelines that a request passes, outermost first. -/
  pipes : List String
  /-- Data for the dispatch layer, by owner. -/
  dispatchData : Record Value
  /-- Data for inspection, by owner. -/
  publicData : Record Value

def Entry.isHelpedBy (e : Entry) (helper : String) : Bool :=
  e.helper.asString? == some helper

structure AddOptions where
  /-- Inferred from the handler if undefined or null. -/
  helper : Value := .undefined
  /-- Whether the handler is taken relative to the scopes around the route. -/
  qualified : Bool := true
  dispatchData : Record Value := []
  publicData : Record Value := []

namespace AddOptions

def isFalse : Value → Bool
  | .bool b => !b
  | _ => false

def ofFields (bag : Record Value) : AddOptions where
  helper := Value.field bag "as"
  qualified := !isFalse (Value.field bag "alias")
  dispatchData := (Value.field bag "private").ownFields
  publicData := (Value.field bag "metadata").ownFields

def ofValue : Value → Except Fault AddOptions
  | .undefined => .ok {}
  | v => v.requireFields.map ofFields

end AddOptions

/-! The finished table of a router: its routes in the order in which they were declared. -/

structure Table where
  name : String
  routes : List Entry

namespace Table

def find? (t : Table) (helper action : String) : Option Entry :=
  t.routes.find? fun e => e.isHelpedBy helper && e.action == action

def require (t : Table) (helper action : String) : Except RouterFault Entry :=
  match t.find? helper action with
  | some e => .ok e
  | none =>
    if t.routes.any (·.isHelpedBy helper) then .error (.actionUnknown helper action)
    else .error (.helperUnknown helper t.name)

def path (t : Table) (helper action : String) (parameters : List Value) (query : Value) :
    Except Fault String := do
  let e ← (t.require helper action).mapError .router
  Path.fillGiven e.path parameters query

end Table

/-! The listing of a table: one line to a route. The helper stands at the right of its column, verb,
path and handler at the left of theirs, and the action closes the line. -/

structure Row where
  helper : String
  verb : String
  path : String
  handler : String
  action : String

def Row.ofEntry (e : Entry) : Row :=
  ⟨e.helper.text ++ "_path", e.verb, e.path, e.handler, e.action⟩

structure Widths where
  helper : Nat
  verb : Nat
  path : Nat
  handler : Nat

def columnWidth (column : Row → String) (rows : List Row) : Nat :=
  (rows.map fun r => Text.width (column r)).foldr max 0

def Widths.ofRows (rows : List Row) : Widths where
  helper := columnWidth Row.helper rows
  verb := columnWidth Row.verb rows
  path := columnWidth Row.path rows
  handler := columnWidth Row.handler rows

def Row.line (w : Widths) (r : Row) : String :=
  Text.join "  " [
    Text.padLeft w.helper r.helper,
    Text.padRight w.verb r.verb,
    Text.padRight w.path r.path,
    Text.padRight w.handler r.handler,
    r.action]

def Table.listing (t : Table) : String :=
  let rows := t.routes.map Row.ofEntry
  Text.join "\n" (rows.map (Row.line (Widths.ofRows rows)))

end ViewRouting.Router
