import ViewRouting.Fault
import ViewRouting.Naming
import ViewRouting.Options
import ViewRouting.Path

/-! Scopes. A scope adds a path, a qualifier for references and a stem for helper names to those of
the scopes around it, and it has options and pipelines of its own. Frames hold what has been added
up; the stack of open frames is never empty. -/

namespace ViewRouting.Router

/-- A step of a pipeline. Only a layout matters to the routes that pass it. -/
inductive Plug where
  | named (name : String) (options : Value)
  | layout (layout : Layout)

abbrev Pipelines := List (String × List Plug)

structure ScopeOptions where
  qualifier : Value := .undefined
  stem : Value := .undefined
  group : GroupOptions := {}

namespace ScopeOptions

def ofFields (bag : Record Value) : ScopeOptions where
  qualifier := Value.field bag "alias"
  stem := Value.field bag "as"
  group := GroupOptions.ofFields bag

/-- A text is the qualifier alone. -/
def ofValue : Value → Except Fault ScopeOptions
  | .string qualifier => .ok { qualifier := .string qualifier }
  | v => v.requireFields.map ofFields

end ScopeOptions

structure Frame where
  path : String
  qualifier : Option String
  /-- Undefined where no scope gives one. -/
  stem : Value
  group : GroupOptions
  pipes : List String

def Frame.root : Frame :=
  ⟨"/", none, .undefined, {}, []⟩

def extendQualifier (outer inner : Option String) : Option String :=
  match inner with
  | none => outer
  | some q => some (Naming.concat [outer.getD "", q])

def readHelper (name : Value) : Except Fault String := do
  let text ← Naming.readText name
  if Naming.isHelper text then return text
  else throw (.router (.helperNotSnakeCase (← name.display)))

/-- A helper name under a stem; where there is no stem it stays as it was given. -/
def helperUnder (stem name : Value) : Except Fault Value := do
  let text ← readHelper name
  return if stem.isTruthy then .string (stem.text ++ "_" ++ text) else name

def extendStem (outer : Value) : Value → Except Fault Value
  | .undefined => .ok outer
  | name => helperUnder outer name

def readQualifier : Value → Except Fault (Option String)
  | .undefined => .ok none
  | v => do
    match ← Naming.readDotted v with
    | some q => return some q
    | none => throw (.router (.qualifierNotDotted (← v.display)))

/-- The frame of a scope opened inside this one, with options as its caller passes them. -/
def Frame.enter (outer : Frame) (path : String) (options : Value) : Except Fault Frame := do
  (Path.requireRooted path).mapError .router
  let options ← ScopeOptions.ofValue options
  let qualifier ← readQualifier options.qualifier
  let stem ← extendStem outer.stem options.stem
  return {
    path := Path.join outer.path path
    qualifier := extendQualifier outer.qualifier qualifier
    stem := stem
    group := options.group
    pipes := [] }

def Frame.qualify (f : Frame) (reference : String) : String :=
  match f.qualifier with
  | none | some "" => reference
  | some q => Naming.concat [q, reference]

def Plug.group : Plug → GroupOptions
  | .named _ _ => {}
  | .layout l => .ofLayout l

def Frame.plugs (pipelines : Pipelines) (f : Frame) : List Plug :=
  f.pipes.flatMap fun name => (pipelines.lookup name).getD []

/-- Adds what one frame contributes: first its pipelines, then its own options. -/
def Frame.overlayOnto (pipelines : Pipelines) (outer : GroupOptions) (f : Frame) : GroupOptions :=
  ((f.plugs pipelines).foldl (fun o plug => o.overlay plug.group) outer).overlay f.group

/-- The options in effect inside the innermost of `frames`, which are given outermost first. -/
def optionsInEffect (pipelines : Pipelines) (frames : List Frame) : GroupOptions :=
  frames.foldl (Frame.overlayOnto pipelines) {}

end ViewRouting.Router
