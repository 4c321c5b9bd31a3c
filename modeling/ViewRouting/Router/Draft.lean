import ViewRouting.Naming
import ViewRouting.Router.Scope
import ViewRouting.Router.Table
import ViewRouting.Trace.Journal

/-! A router while it is being defined. Drafting is stateful, and what a step did before it failed
stays done: every operation therefore makes all its checks before its first change. Once the table
has been taken the draft is finished and no operation changes it any more. -/

namespace ViewRouting.Router

structure Draft where
  name : String
  handlerSuffix : Value
  pipelines : Pipelines := []
  /-- The innermost open scope. -/
  current : Frame := .root
  /-- The scopes around it, innermost first. -/
  enclosing : List Frame := []
  entries : List Entry := []
  finished : Bool := false

structure RouterOptions where
  /-- Ends the names of handlers; one that counts as absent ends none. -/
  handlerSuffix : Value := .string "Controller"

namespace RouterOptions

def ofValue (options : Value) : RouterOptions :=
  let default : RouterOptions := {}
  ⟨(Value.field options.ownFields "handlerSuffix").orElse default.handlerSuffix⟩

def toValue (o : RouterOptions) : Value :=
  .record [("handlerSuffix", o.handlerSuffix)]

end RouterOptions

namespace Draft

def start (name : String) (options : RouterOptions) : Except RouterFault Draft :=
  if Naming.isDotted name then
    .ok { name := name, handlerSuffix := options.handlerSuffix }
  else .error (.nameNotDotted name)

/-- The open scopes, outermost first. -/
def frames (d : Draft) : List Frame :=
  (d.current :: d.enclosing).reverse

/-- The pipelines of all open scopes, outermost first. -/
def pipes (d : Draft) : List String :=
  d.frames.flatMap Frame.pipes

def qualify (d : Draft) (reference : String) : String :=
  d.current.qualify reference

def inherited (d : Draft) : GroupOptions :=
  optionsInEffect d.pipelines d.frames

/-- The last segment of a handler without the suffix; a segment that is the bare suffix stays. -/
def handlerStem (suffix : Value) (last : String) : Except Fault Text.Cut :=
  if suffix.isTruthy then do
    let text ← Naming.readText suffix
    if Naming.endsWith text last && suffix.asString? != some last then
      if suffix.length.number?.isSome then return Naming.dropEnding suffix last
      else throw .unreadable
    else return ⟨last, none⟩
  else .ok ⟨last, none⟩

/-- `MyAppWeb.PageController` is helped by `page`, where `Controller` is the suffix of handlers. A
name that ends in half a character is none. -/
def handlerHelper (suffix : Value) (handler : String) : Except Fault String := do
  let stem ← handlerStem suffix ((Naming.segments handler).getLast?.getD handler)
  let name : Text.Cut := { stem with whole := Naming.snakeCase stem.whole }
  if name.half.isSome then throw (.router (.helperNotSnakeCase name.quoted))
  else return name.whole

def ownHelper (d : Draft) (given : Value) (handler : String) : Except Fault Value :=
  if given.isNullish then (handlerHelper d.handlerSuffix handler).map .string else .ok given

def table (d : Draft) : Table :=
  ⟨d.name, d.entries⟩

end Draft

/-- The state that drafting works on. -/
structure Workshop where
  draft : Draft
  journal : Trace.Journal

/-- A drafting step: it may change the workshop, and it may fail without undoing its changes. -/
abbrev Drafting := EStateM Fault Workshop

namespace Drafting

def check {ε α : Type} (cause : ε → Fault) : Except ε α → Drafting α
  | .ok a => pure a
  | .error e => throw (cause e)

def attempt {α : Type} (step : Drafting α) : Drafting (Except Fault α) := fun w =>
  match step w with
  | .ok a w => .ok (.ok a) w
  | .error fault w => .ok (.error fault) w

def total {α : Type} (step : Workshop → α × Workshop) : Drafting α := fun w =>
  let (a, w) := step w
  .ok a w

def draft : Drafting Draft := do
  return (← get).draft

def change (f : Draft → Draft) : Drafting Unit :=
  modify fun w => { w with draft := f w.draft }

/-- What was noted before an event that cannot be written stays noted. -/
def note (events : List Trace.Event) : Drafting Unit := do
  let w ← get
  let (result, journal) := w.journal.noteAll events
  set { w with journal := journal }
  check id result

def requireOpen : Drafting Unit := do
  let d ← draft
  if d.finished then throw (.router (.finished d.name))

def pipeline (name : String) (plugs : List Plug) : Drafting Unit := do
  requireOpen
  let d ← draft
  if (d.pipelines.lookup name).isSome then throw (.router (.pipelineDefined name))
  change fun d => { d with pipelines := d.pipelines ++ [(name, plugs)] }

/-- All names have to be known before any of them is piped through. -/
def pipe (names : List String) : Drafting Unit := do
  requireOpen
  let d ← draft
  match names.find? fun name => (d.pipelines.lookup name).isNone with
  | some name => throw (.router (.pipelineUnknown name))
  | none =>
    change fun d => { d with current := { d.current with pipes := d.current.pipes ++ names } }

def enterScope (path : String) (options : Value) : Drafting Unit := do
  requireOpen
  let d ← draft
  let frame ← check id (d.current.enter path options)
  note [.scopeEntered frame.path frame.qualifier frame.stem]
  change fun d => { d with current := frame, enclosing := d.current :: d.enclosing }

def leaveScope : Drafting Unit :=
  change fun d =>
    match d.enclosing with
    | outer :: rest => { d with current := outer, enclosing := rest }
    | [] => d

/-- Runs `body` inside a scope, which is left however the body ends. -/
def scope {α : Type} (path : String) (options : Value) (body : Drafting α) : Drafting α := do
  enterScope path options
  let result ← attempt body
  leaveScope
  check id result

/-- The one way in which a route gets into the table. -/
def add (verb path handler action : String) (options : AddOptions) : Drafting Entry := do
  requireOpen
  check .router (Path.requireRooted path)
  let d ← draft
  let own ← check id (d.ownHelper options.helper handler)
  let helper ← check id (helperUnder d.current.stem own)
  let entry : Entry := {
    verb := verb
    path := Path.join d.current.path path
    handler := if options.qualified then d.qualify handler else handler
    action := action
    helper := helper
    pipes := d.pipes
    dispatchData := options.dispatchData
    publicData := options.publicData }
  note [.routeAdded verb entry.path entry.handler action helper]
  change fun d => { d with entries := d.entries ++ [entry] }
  return entry

def addGiven (verb path handler action : String) (options : Value) : Drafting Entry := do
  requireOpen
  check .router (Path.requireRooted path)
  add verb path handler action (← check id (AddOptions.ofValue options))

/-- Takes the table; the draft is finished from then on. -/
def finish : Drafting Table := do
  requireOpen
  change fun d => { d with finished := true }
  let d ← draft
  note [.tableBuilt d.name d.entries.length]
  return d.table

end Drafting

end ViewRouting.Router
