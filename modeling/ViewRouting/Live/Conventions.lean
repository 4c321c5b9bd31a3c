import ViewRouting.Naming
import ViewRouting.Options
import ViewRouting.Trace.Journal

/-! The conventions that live routes are named by, and the checks that they can be used. Each is
given as a value or left out. -/

namespace ViewRouting.Live

structure Conventions where
  /-- Ends the segment of a reference from which on it names a helper. -/
  liveSuffix : Value := .string "Live"
  /-- Helper of the routes that have no action. -/
  impliedHelper : Value := .string "live"
  /-- The segment of the layout view beside the router. -/
  layoutSegment : String := "LayoutView"
  layoutTemplate : Value := .string "app"
  /-- Handler of every live route. -/
  handler : String := "LiveView.Plug"

namespace Conventions

def isCapitalizedWord (s : String) : Bool :=
  match s.toList with
  | [] => false
  | c :: cs => c.isUpper && cs.all Char.isAlphanum

def isSingleSegment (s : String) : Bool :=
  Naming.isDotted s && !s.toList.contains '.'

def get (c : Conventions) : ConventionKey → Value
  | .liveSuffix => c.liveSuffix
  | .impliedHelper => c.impliedHelper
  | .layoutSegment => .string c.layoutSegment
  | .layoutTemplate => c.layoutTemplate
  | .handler => .string c.handler

def reject {α : Type} (key : ConventionKey) (given : Value) : Except Fault α := do
  throw (.live (.conventionInvalid key (← given.display)))

/-- A value, kept as it is given, whose text is admitted. -/
def requireText (key : ConventionKey) (admits : String → Bool) (given : Value) :
    Except Fault Value := do
  if admits (← Naming.readText given) then return given else reject key given

def requireDotted (key : ConventionKey) (admits : String → Bool) (given : Value) :
    Except Fault String := do
  match (← Naming.readDotted given).filter admits with
  | some s => return s
  | none => reject key given

def requireTruthy (key : ConventionKey) (given : Value) : Except Fault Value :=
  if given.isTruthy then .ok given else reject key given

/-- The conventions of a bag, checked one after another; those that it leaves out keep their
defaults. -/
def ofFields (bag : Record Value) : Except Fault Conventions := do
  let given (key : ConventionKey) := (Value.field bag key.name).orElse (get {} key)
  let liveSuffix ← requireText .liveSuffix isCapitalizedWord (given .liveSuffix)
  let impliedHelper ← requireText .impliedHelper Naming.isHelper (given .impliedHelper)
  let layoutSegment ← requireDotted .layoutSegment isSingleSegment (given .layoutSegment)
  let layoutTemplate ← requireTruthy .layoutTemplate (given .layoutTemplate)
  let handler ← requireDotted .handler Naming.isDotted (given .handler)
  return { liveSuffix, impliedHelper, layoutSegment, layoutTemplate, handler }

def ofValue (v : Value) : Except Fault Conventions :=
  if v.isTruthy then ofFields v.ownFields else .ok {}

def keys : List ConventionKey :=
  [.liveSuffix, .impliedHelper, .layoutSegment, .layoutTemplate, .handler]

def toValue (c : Conventions) : Value :=
  .record (keys.map fun key => (key.name, c.get key))

end Conventions

/-! What a live route leaves to convention: its helper, named after its view, and its layout, found
beside the router. -/

/-- A value, and the events on the way to it. -/
structure Observed (α : Type) where
  value : α
  events : List Trace.Event

def stripSuffix (suffix : Value) (segment : String) : String :=
  if Naming.hasEnding suffix segment then (Naming.dropEnding suffix segment).text else segment

/-- The segments of a view from the first one on that ends with the suffix. -/
def liveSegments (suffix : Value) (view : String) : List String :=
  (Naming.segments view).dropWhile fun s => !Naming.hasEnding suffix s

/-- The words of a helper: each live segment without the suffix, in snake case. A segment that is
the bare suffix gives no word. -/
def helperWords (suffix : Value) (view : String) : List String :=
  ((liveSegments suffix view).map fun s => Naming.snakeCase (stripSuffix suffix s)).filter
    fun word => !word.isEmpty

/-- Without an action the implied helper serves; with one the view has to give a name. -/
def helperFor (conventions : Conventions) (view : String) (action : Option Value) :
    Except LiveFault (Observed Value) :=
  match action with
  | none => .ok ⟨conventions.impliedHelper, []⟩
  | some action =>
    let helper := Text.join "_" (helperWords conventions.liveSuffix view)
    if helper = "" then .error (.helperNotInferred view conventions.liveSuffix.text)
    else .ok ⟨.string helper, [.helperInferred view action helper]⟩

/-- `MyAppWeb.Router` has its layout in `MyAppWeb.LayoutView`. -/
def layoutBeside (conventions : Conventions) (router : String) : Observed Layout :=
  let view := Naming.concat ((Naming.segments router).dropLast ++ [conventions.layoutSegment])
  ⟨⟨.string view, conventions.layoutTemplate⟩, [.layoutInferred router view]⟩

end ViewRouting.Live
