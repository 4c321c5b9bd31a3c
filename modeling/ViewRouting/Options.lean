import ViewRouting.Value

/-! Options of a group of routes: a layout, data for the session and a container. They are kept as
they are given; one that counts as absent is left out. Inner options overlay outer ones: a layout or
container replaces the outer one as a whole, session data are joined. -/

namespace ViewRouting

structure Layout where
  view : Value
  template : Value

structure Container where
  tag : Value
  attributes : Record Value

structure GroupOptions where
  layout : Option Value := none
  session : Option (Record Value) := none
  container : Option Value := none

namespace Layout

def toValue (l : Layout) : Value :=
  .array [l.view, l.template]

def ofValue (v : Value) : Layout :=
  ⟨v.item 0, v.item 1⟩

end Layout

namespace Container

def toValue (c : Container) : Value :=
  .array [c.tag, .record c.attributes]

def ofValue (v : Value) : Container :=
  ⟨v.item 0, (v.item 1).ownFields⟩

end Container

namespace GroupOptions

def overlaySession : Option (Record Value) → Option (Record Value) → Option (Record Value)
  | none, none => none
  | outer, inner => some (Record.overlay (outer.getD []) (inner.getD []))

def overlay (outer inner : GroupOptions) : GroupOptions where
  layout := inner.layout <|> outer.layout
  session := overlaySession outer.session inner.session
  container := inner.container <|> outer.container

def ofLayout (l : Layout) : GroupOptions :=
  { layout := some l.toValue }

def sessionOf (bag : Record Value) : Option (Record Value) :=
  (Value.field bag "session").truthy?.map Value.ownFields

def ofFields (bag : Record Value) : GroupOptions where
  layout := (Value.field bag "layout").truthy?
  session := sessionOf bag
  container := (Value.field bag "container").truthy?

def fieldOf (name : String) (option : Option Value) : Record Value :=
  match option with
  | some v => [(name, v)]
  | none => []

def fields (o : GroupOptions) : Record Value :=
  fieldOf "layout" o.layout ++ fieldOf "session" (o.session.map .record)
    ++ fieldOf "container" o.container

end GroupOptions

/-! Options of one route: those of its own bag over the bag that the scopes around it hand down.
Nothing is checked. A layout and a container are read by the places of their items, and an item that
is not there is undefined. -/

structure RouteOptions where
  session : Option (Record Value) := none
  layout : Option Layout := none
  container : Option Container := none
  /-- Takes the place of the inferred helper. -/
  helper : Option Value := none

namespace RouteOptions

/-- The option that is in force: the inner one unless it is undefined or null, and neither if the
one in force counts as absent. -/
def inForce (outer inner : Record Value) (name : String) : Option Value :=
  ((Value.field inner name).orElse (Value.field outer name)).truthy?

/-- A layout and a container of the inner bag replace those of the outer one, session data are
joined, and a helper name comes from the inner bag alone. -/
def merge (outer inner : Record Value) : RouteOptions where
  session := GroupOptions.overlaySession (GroupOptions.sessionOf outer)
    (GroupOptions.sessionOf inner)
  layout := (inForce outer inner "layout").map .ofValue
  container := (inForce outer inner "container").map .ofValue
  helper := Value.present? inner "as"

def fields (o : RouteOptions) : Record Value :=
  GroupOptions.fieldOf "session" (o.session.map .record)
    ++ GroupOptions.fieldOf "layout" (o.layout.map Layout.toValue)
    ++ GroupOptions.fieldOf "container" (o.container.map Container.toValue)
    ++ GroupOptions.fieldOf "as" o.helper

end RouteOptions

end ViewRouting
