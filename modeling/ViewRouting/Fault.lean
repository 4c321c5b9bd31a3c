import ViewRouting.Value.Coercions

/-! What can go wrong, by cause. A router fault arises while routes are declared or looked up, a
live fault while a live statement or its conventions are checked; each has a code and a message. -/

namespace ViewRouting

inductive RouterFault where
  | nameNotDotted (given : String)
  | qualifierNotDotted (shown : String)
  | pathNotRooted (given : String)
  | helperNotSnakeCase (shown : String)
  | pipelineDefined (name : String)
  | pipelineUnknown (name : String)
  | finished (router : String)
  | helperUnknown (helper router : String)
  | actionUnknown (helper action : String)
  | parameterCount (path : String) (names : List String) (given : Nat)
  deriving DecidableEq, Repr

namespace RouterFault

def code : RouterFault → String
  | nameNotDotted _ | qualifierNotDotted _ => "ROUTER_INVALID_NAMESPACE"
  | pathNotRooted _ => "ROUTER_INVALID_PATH"
  | helperNotSnakeCase _ => "ROUTER_INVALID_HELPER"
  | pipelineDefined _ => "ROUTER_DUPLICATE_PIPELINE"
  | pipelineUnknown _ => "ROUTER_UNKNOWN_PIPELINE"
  | finished _ => "ROUTER_SEALED"
  | helperUnknown _ _ | actionUnknown _ _ => "ROUTER_UNKNOWN_HELPER"
  | parameterCount _ _ _ => "ROUTER_PARAM_MISMATCH"

def namesOrNone (names : List String) : String :=
  let listed := ", ".intercalate names
  if listed = "" then "none" else listed

def message : RouterFault → String
  | nameNotDotted given =>
    "router namespace must be a dotted identifier such as \"MyAppWeb.Router\", got: "
      ++ Text.quoted given
  | qualifierNotDotted shown => s!"scope alias must be a dotted identifier, got: {shown}"
  | pathNotRooted given => "router paths must begin with /, got: " ++ Text.quoted given
  | helperNotSnakeCase shown => s!"helper names must be snake_case, got: {shown}"
  | pipelineDefined name => s!"pipeline {name} is already defined"
  | pipelineUnknown name =>
    s!"unknown pipeline {name}; declare it with pipeline() before piping through it"
  | finished router =>
    s!"router {router} has already been built; define a new router to add routes"
  | helperUnknown helper router => s!"no helper named {helper} in {router}"
  | actionUnknown helper action => s!"no route for helper {helper} with action {action}"
  | parameterCount path names given =>
    s!"path {path} expects " ++ toString names.length ++ " param(s) (" ++ namesOrNone names
      ++ "), got " ++ toString given

end RouterFault

inductive ConventionKey where
  | liveSuffix
  | impliedHelper
  | layoutSegment
  | layoutTemplate
  | handler
  deriving DecidableEq, Repr

namespace ConventionKey

def name : ConventionKey → String
  | liveSuffix => "liveSuffix"
  | impliedHelper => "impliedHelperName"
  | layoutSegment => "layoutViewSegment"
  | layoutTemplate => "layoutTemplate"
  | handler => "handler"

def expectation : ConventionKey → String
  | liveSuffix => "a capitalized word such as \"Live\""
  | impliedHelper => "a snake_case helper name"
  | layoutSegment => "a single identifier segment"
  | layoutTemplate => "a non-empty template name"
  | handler => "a dotted identifier"

end ConventionKey

inductive LiveFault where
  | viewNotDotted (view : String)
  | actionNotSnakeCase (view shown : String)
  | helperNotInferred (view suffix : String)
  | optionsNotPlain (view : String)
  | optionsUnknown (view : String) (names : List String)
  | sessionNotMap (view : String)
  | layoutNotPair (view : String)
  | containerTagInvalid (view : String)
  | containerAttributesInvalid (view : String)
  | helperNotSnakeCase (view shown : String)
  | conventionInvalid (key : ConventionKey) (shown : String)
  deriving DecidableEq, Repr

namespace LiveFault

def code : LiveFault → String
  | viewNotDotted _ => "LIVE_INVALID_VIEW"
  | actionNotSnakeCase _ _ => "LIVE_INVALID_ACTION"
  | helperNotInferred _ _ => "LIVE_HELPER_NAME_INFERENCE"
  | conventionInvalid _ _ => "LIVE_INVALID_CONFIG"
  | _ => "LIVE_INVALID_OPTION"

def view? : LiveFault → Option String
  | viewNotDotted view | actionNotSnakeCase view _ | helperNotInferred view _
  | optionsNotPlain view | optionsUnknown view _ | sessionNotMap view | layoutNotPair view
  | containerTagInvalid view | containerAttributesInvalid view | helperNotSnakeCase view _ =>
    some view
  | conventionInvalid _ _ => none

def message : LiveFault → String
  | viewNotDotted view =>
    "live view must be a dotted identifier such as \"ArticleLive.Index\", got: "
      ++ Text.quoted view
  | actionNotSnakeCase view shown =>
    s!"live action for {view} must be a snake_case tag such as \"index\" or \"edit\", got: "
      ++ shown
  | helperNotInferred view suffix =>
    "could not infer the helper name because an action was given and the view "
      ++ s!"{view} has no \"{suffix}\" suffix. "
      ++ s!"Pass the \"as\" option explicitly or name the view like \"Foo{suffix}\" "
      ++ s!"or \"Foo{suffix}.Index\""
  | optionsNotPlain view => s!"options for {view} must be a plain object"
  | optionsUnknown view names =>
    s!"unknown option(s) for {view}: " ++ ", ".intercalate names
      ++ "; expected one of session, layout, container, as"
  | sessionNotMap view => s!"session for {view} must be a map of string keys to values"
  | layoutNotPair view =>
    s!"layout for {view} must be a [view, template] pair such as "
      ++ "[\"MyAppWeb.LayoutView\", \"app\"]"
  | containerTagInvalid view =>
    s!"container for {view} must start with an HTML tag name such as \"div\""
  | containerAttributesInvalid view =>
    s!"container attributes for {view} must map attribute names to strings"
  | helperNotSnakeCase view shown =>
    s!"\"as\" for {view} must be a snake_case helper name, got: {shown}"
  | conventionInvalid key shown =>
    "invalid live route config " ++ key.name ++ s!": {shown}; expected " ++ key.expectation

end LiveFault

inductive Fault where
  | router (fault : RouterFault)
  | live (fault : LiveFault)
  /-- A big integer stands in a value whose JSON text is wanted. -/
  | unserializable
  /-- A value cannot be read as what is wanted in its place, or there is none. -/
  | unreadable
  /-- A step of a session gave up on purpose. -/
  | raised (message : String)
  deriving DecidableEq, Repr

/-- The fields of a value; undefined and null cannot be asked for any. -/
def Value.requireFields (v : Value) : Except Fault (Record Value) :=
  if v.isNullish then .error .unreadable else .ok v.ownFields

/-- How a value is shown in a complaint, where that can be said at all. -/
def Value.display (v : Value) : Except Fault String :=
  if v.holdsBigint then .error .unserializable else .ok v.shown

end ViewRouting
