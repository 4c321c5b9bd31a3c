import ViewRouting.Fault

/-! Slash paths. A path is what its non-empty segments say; a segment that starts with a colon
stands for one segment of a request, one that starts with a star for the rest of it. -/

namespace ViewRouting.Path

def segments (path : String) : List String :=
  (Text.split '/' path).filter fun s => !s.isEmpty

def ofSegments (segments : List String) : String :=
  "/" ++ Text.join "/" segments

def join (outer inner : String) : String :=
  ofSegments (segments outer ++ segments inner)

def isRooted (path : String) : Bool :=
  path.toList.head? = some '/'

inductive Segment where
  | fixed (text : String)
  | named (name : String)
  | rest (name : String)
  deriving DecidableEq, Repr

def Segment.ofText (text : String) : Segment :=
  match text.toList with
  | ':' :: name => .named (String.ofList name)
  | '*' :: name => .rest (String.ofList name)
  | _ => .fixed text

def Segment.name? : Segment → Option String
  | .fixed _ => none
  | .named name => some name
  | .rest name => some name

def pattern (path : String) : List Segment :=
  (segments path).map Segment.ofText

def dynamicNames (path : String) : List String :=
  (pattern path).filterMap Segment.name?

/-! Filling a path: parameters take the places of its dynamic segments in order, and a query
follows. A parameter for the rest of a path keeps its slashes. -/

inductive Scalar where
  | text (s : String)
  | number (n : Binary64)
  | truth (b : Bool)
  deriving DecidableEq, Repr

namespace Scalar

def written : Scalar → String
  | text s => s
  | number n => n.text
  | truth b => if b then "true" else "false"

/-- What a caller passes. Values of other kinds stand for their texts, and a symbol for its
description. -/
def ofValue : Value → Except Fault Scalar
  | .number n => .ok (.number n)
  | .bool b => .ok (.truth b)
  | .string s => .ok (.text s)
  | .symbol description => .ok (.text s!"Symbol({description})")
  | v =>
    match v.text? with
    | some s => .ok (.text s)
    | none => .error .unreadable

end Scalar

/-- A parameter that stands for several segments: each of its pieces is encoded by itself. -/
def encodeRest (parameter : String) : String :=
  Text.join "/" ((Text.split '/' parameter).map Text.component)

/-- The segments with parameters for the dynamic ones, and no parameter for what is left over. -/
def fillSegments : List Segment → List String → List String
  | [], _ => []
  | .fixed text :: rest, parameters => text :: fillSegments rest parameters
  | .named _ :: rest, p :: parameters => Text.component p :: fillSegments rest parameters
  | .rest _ :: rest, p :: parameters => encodeRest p :: fillSegments rest parameters
  | _ :: rest, [] => fillSegments rest []

abbrev Query := Record Scalar

def Query.ofValue (v : Value) : Except Fault Query :=
  v.ownFields.mapM fun f => (Scalar.ofValue f.2).map (f.1, ·)

def withQuery (path : String) (query : Query) : String :=
  if query.isEmpty then path else path ++ "?" ++ Text.query (query.mapValues Scalar.written)

def requireCount (path : String) (given : Nat) : Except RouterFault Unit :=
  let names := dynamicNames path
  if names.length = given then .ok () else .error (.parameterCount path names given)

def fill (path : String) (parameters : List Scalar) (query : Query) :
    Except RouterFault String := do
  requireCount path parameters.length
  let filled := fillSegments (pattern path) (parameters.map Scalar.written)
  return withQuery (ofSegments filled) query

/-- Fills a path with what a caller passes, which is read only if there is the right number of it.
-/
def fillGiven (path : String) (parameters : List Value) (query : Value) : Except Fault String := do
  (requireCount path parameters.length).mapError .router
  let parameters ← parameters.mapM Scalar.ofValue
  let query ← Query.ofValue query
  (fill path parameters query).mapError .router

def requireRooted (path : String) : Except RouterFault Unit :=
  if isRooted path then .ok () else .error (.pathNotRooted path)

end ViewRouting.Path
