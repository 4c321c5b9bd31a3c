import ViewRouting.Naming

/-! Live statements as they are written: a path, a view, and then an action, an options bag or both.
-/

namespace ViewRouting.Live

structure Declaration where
  path : String
  view : String
  action : Option Value := none
  /-- Not checked yet; undefined when there are none. -/
  options : Value := .undefined

namespace Declaration

/-- An options bag in the place of the action means no action, and lies under the bag that follows.
-/
def ofArguments (path view : String) (action options : Value) : Declaration :=
  let given := if options.isTruthy then options else .undefined
  match action with
  | .undefined => { path, view, options := given }
  | .string action => { path, view, action := some (.string action), options := given }
  | bag =>
    { path, view, options := .record (Record.overlay bag.ownFields options.ownFields) }

def ofParts (path view : String) (action options : Value) : Declaration :=
  { path, view, action := action.given?, options }

def actionField (d : Declaration) : Record Value :=
  match d.action with
  | some action => [("action", action)]
  | none => []

def optionsField (d : Declaration) : Record Value :=
  match d.options with
  | .undefined => []
  | options => [("options", options)]

def toValue (d : Declaration) : Value :=
  .record ([("path", .string d.path), ("view", .string d.view)] ++ d.actionField ++ d.optionsField)

end Declaration

/-! The grammar of the options of a live route. A bag is accepted as a whole or the first thing
wrong with it is named; an option that is present but undefined counts as left out. -/

def optionNames : List String :=
  ["session", "layout", "container", "as"]

def isTag (s : String) : Bool :=
  match s.toList with
  | [] => false
  | c :: cs => c.isLower && cs.all fun c => c.isLower || c.isDigit || c = '-'

def isTextMap (v : Value) : Bool :=
  match v.plainFields? with
  | some fields => fields.all fun f => f.2.asString?.isSome
  | none => false

def isLayout : Value → Bool
  | .array [.string view, .string template] => Naming.isDotted view && template != ""
  | _ => false

def requireSession (view : String) : Option Value → Except LiveFault Unit
  | none => .ok ()
  | some v => if v.plainFields?.isSome then .ok () else .error (.sessionNotMap view)

def requireLayout (view : String) : Option Value → Except LiveFault Unit
  | none => .ok ()
  | some v => if isLayout v then .ok () else .error (.layoutNotPair view)

def requireContainer (view : String) : Option Value → Except LiveFault Unit
  | none => .ok ()
  | some (.array [.string tag, attributes]) =>
    if !isTag tag then .error (.containerTagInvalid view)
    else if isTextMap attributes then .ok ()
    else .error (.containerAttributesInvalid view)
  | some _ => .error (.containerTagInvalid view)

def requireHelper (view : String) : Option Value → Except Fault Unit
  | none => .ok ()
  | some v =>
    if (v.asString?.filter Naming.isHelper).isSome then .ok ()
    else do throw (.live (.helperNotSnakeCase view (← v.display)))

def requireOptions (view : String) (v : Value) : Except Fault (Record Value) := do
  match v.plainFields? with
  | none => throw (.live (.optionsNotPlain view))
  | some bag =>
    let unknown := bag.names.filter fun name => !optionNames.contains name
    if unknown != [] then throw (.live (.optionsUnknown view unknown))
    (requireSession view (Value.present? bag "session")).mapError .live
    (requireLayout view (Value.present? bag "layout")).mapError .live
    (requireContainer view (Value.present? bag "container")).mapError .live
    requireHelper view (Value.present? bag "as")
    return bag

end ViewRouting.Live
