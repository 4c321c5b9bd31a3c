import ViewRouting.Trace.Switchboard

/-! The journal of a router definition: every event of interest, sent through the built-in channel
of its topic, and the lines that were put out. -/

namespace ViewRouting.Trace

inductive Event where
  | scopeEntered (path : String) (qualifier : Option String) (stem : Value)
  | routeAdded (verb path handler action : String) (helper : Value)
  | tableBuilt (router : String) (routes : Nat)
  | helperInferred (view : String) (action : Value) (helper : String)
  | layoutInferred (router layoutView : String)
  | descriptorBuilt (path view : String) (action : Option Value) (helper layoutView : Value)

namespace Event

def topic : Event → Topic
  | scopeEntered .. | routeAdded .. | tableBuilt .. => .router
  | helperInferred .. | layoutInferred .. | descriptorBuilt .. => .live

def point : Event → String
  | scopeEntered .. => "scope.enter"
  | routeAdded .. => "route.added"
  | tableBuilt .. => "table.built"
  | helperInferred .. => "inferred.helper"
  | layoutInferred .. => "inferred.layout"
  | descriptorBuilt .. => "descriptor.built"

def data : Event → Record Value
  | scopeEntered path qualifier stem =>
    [("path", .string path), ("alias", (qualifier.map Value.string).getD .undefined),
      ("as", stem)]
  | routeAdded verb path handler action helper =>
    [("verb", .string verb), ("path", .string path), ("handler", .string handler),
      ("action", .string action), ("helper", helper)]
  | tableBuilt router routes => [("namespace", .string router), ("routes", Value.ofNat routes)]
  | helperInferred view action helper =>
    [("view", .string view), ("action", action), ("helperName", .string helper)]
  | layoutInferred router layoutView =>
    [("router", .string router), ("layoutView", .string layoutView)]
  | descriptorBuilt path view action helper layoutView =>
    [("path", .string path), ("view", .string view), ("action", action.getD .null),
      ("helperName", helper), ("layout", layoutView)]

end Event

/-- An event that was heard, and its message. -/
structure Line where
  event : Event
  text : String

structure Journal where
  board : Switchboard
  lines : List Line := []

namespace Journal

def note (j : Journal) (e : Event) : Except Fault Journal := do
  match ← j.board.send (j.board.builtin e.topic) e.point (.record e.data) with
  | some text => pure { j with lines := j.lines ++ [⟨e, text⟩] }
  | none => pure j

/-- Notes events one after another. The first that cannot be written ends it; the lines before it
stay. -/
def noteAll (j : Journal) : List Event → Except Fault Unit × Journal
  | [] => (.ok (), j)
  | e :: rest =>
    match j.note e with
    | .ok j => j.noteAll rest
    | .error fault => (.error fault, j)

end Journal

end ViewRouting.Trace
