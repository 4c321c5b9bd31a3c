import ViewRouting.Live.Registration

/-! Sessions: questions to a table, programs that build one, and live statements by themselves. -/

/-! Questions to a finished table, and answers of every kind that a session gives. -/

namespace ViewRouting.Session
open Router Live

/-- Data are asked for by names of their own, not by one that every object inherits, and routes by
their place in the table. -/
inductive Query where
  | listing
  | find (helper action : String)
  | path (helper action : String) (parameters : List Value) (query : Value)
  | dispatchData (route : Nat) (owner : String)
  | publicData (route : Nat) (owner : String)
  | liveTarget (route : Nat)
  | livePublic (route : Nat)

inductive Outcome where
  | done
  | text (s : String)
  | value (v : Value)
  | entry (e : Entry)
  | found (e : Option Entry)
  | descriptor (d : Descriptor)
  | table (t : Table)
  | liveTarget (r : Option LiveTarget)
  | livePublic (d : Option PublicData)
  /-- A scope whose body came to its end. -/
  | scope (inner : List Outcome)
  /-- A failure, and for a scope what its body had answered by then. -/
  | failed (fault : Fault) (inner : Option (List Outcome))

def Outcome.fault? : Outcome → Option Fault
  | .failed fault _ => some fault
  | _ => none

/-- An answer about a route, which has to be there. -/
def onRoute (t : Table) (route : Nat) (answer : Entry → Outcome) : Outcome :=
  match t.routes[route]? with
  | some e => answer e
  | none => .failed .unreadable none

def Query.run (t : Table) : Query → Outcome
  | .listing => .text t.listing
  | .find helper action => .found (t.find? helper action)
  | .path helper action parameters query =>
    match t.path helper action parameters query with
    | .ok filled => .text filled
    | .error fault => .failed fault none
  | .dispatchData route owner => onRoute t route fun e => .value (Value.field e.dispatchData owner)
  | .publicData route owner => onRoute t route fun e => .value (Value.field e.publicData owner)
  | .liveTarget route => onRoute t route fun e => .liveTarget (liveTarget? e)
  | .livePublic route => onRoute t route fun e => .livePublic (livePublic? e)

/-! Programs of steps over one draft. A failing step is recorded and the program goes on; in a scope
that propagates, the first failing step ends the body and the scope fails with it. -/

/-- A step that opens no scope. -/
inductive Operation where
  | pipeline (name : String) (plugs : List Plug)
  | pipe (names : List String)
  | qualify (reference : String)
  | inherited
  | add (verb path handler action : String) (options : Value)
  | register (conventions : Conventions) (declaration : Declaration)
  | describe (conventions : Conventions) (declaration : Declaration)
  | finish
  | raise (message : String)
  | ask (query : Query)

inductive Step where
  | operation (operation : Operation)
  | scope (path : String) (options : Value) (propagate : Bool) (body : List Step)

def Operation.perform : Operation → Drafting Outcome
  | .pipeline name plugs => do Drafting.pipeline name plugs; return .done
  | .pipe names => do Drafting.pipe names; return .done
  | .qualify reference => do return .text ((← Drafting.draft).qualify reference)
  | .inherited => do return .value (.record (← Drafting.draft).inherited.fields)
  | .add verb path handler action options => do
    return .entry (← Drafting.addGiven verb path handler action options)
  | .register conventions declaration => do
    return .descriptor (← Live.register conventions declaration)
  | .describe conventions declaration => do
    return .descriptor (← describeIn conventions declaration)
  | .finish => do return .table (← Drafting.finish)
  | .raise message => throw (.raised message)
  | .ask query => do return query.run (← Drafting.draft).table

def recorded (step : Drafting Outcome) (w : Workshop) : Outcome × Workshop :=
  match step w with
  | .ok outcome w => (outcome, w)
  | .error fault w => (.failed fault none, w)

/-- What a list of steps has answered, and the fault that ended it early. -/
structure Report where
  outcomes : List Outcome
  fault : Option Fault

/-- The outcome of a scope, from the report on its body if there was one. -/
def scopeOutcome : EStateM.Result Fault Workshop Report → Outcome × Workshop
  | .ok ⟨inner, none⟩ w => (.scope inner, w)
  | .ok ⟨inner, some fault⟩ w => (.failed fault (some inner), w)
  | .error fault w => (.failed fault (some []), w)

mutual
def Step.run : Step → Workshop → Outcome × Workshop
  | .operation operation, w => recorded operation.perform w
  | .scope path options propagate body, w =>
    scopeOutcome (Drafting.scope path options (Drafting.total (runBody propagate body)) w)

/-- Runs steps in order; if `propagate`, up to the first that fails. -/
def runBody (propagate : Bool) : List Step → Workshop → Report × Workshop
  | [], w => (⟨[], none⟩, w)
  | step :: rest, w =>
    let (outcome, w) := step.run w
    match propagate, outcome.fault? with
    | true, some fault => (⟨[outcome], some fault⟩, w)
    | _, _ =>
      let (report, w) := runBody propagate rest w
      (⟨outcome :: report.outcomes, report.fault⟩, w)
end

def runProgram (steps : List Step) (w : Workshop) : List Outcome × Workshop :=
  let (report, w) := runBody false steps w
  (report.outcomes, w)

structure Definition where
  outcomes : List Outcome
  result : Except Fault Table
  journal : Trace.Journal

/-- Starts a router, runs the steps of its definition and takes its table. The first step that fails
ends the definition. -/
def define (name : String) (options : RouterOptions) (steps : List Step)
    (journal : Trace.Journal) : Definition :=
  match Draft.start name options with
  | .error fault => ⟨[], .error (.router fault), journal⟩
  | .ok draft =>
    let (report, w) := runBody true steps ⟨draft, journal⟩
    match report.fault with
    | some fault => ⟨report.outcomes, .error fault, w.journal⟩
    | none =>
      match Drafting.finish w with
      | .ok table w => ⟨report.outcomes, .ok table, w.journal⟩
      | .error fault w => ⟨report.outcomes, .error fault, w.journal⟩

/-! Live statements against a host that only records what it is asked to register. -/

inductive Statement where
  | register (declaration : Declaration)
  | describe (declaration : Declaration)

structure Recorded where
  result : Except Fault Descriptor
  /-- What the host was asked to register. -/
  calls : List Registration

def Statement.registrations (conventions : Conventions) (d : Descriptor) :
    Statement → List Registration
  | .register _ => [d.registration conventions]
  | .describe _ => []

def Statement.declaration : Statement → Declaration
  | .register d | .describe d => d

def Statement.run (conventions : Conventions) (host : Host) (journal : Trace.Journal)
    (s : Statement) : Recorded × Trace.Journal :=
  match Live.describe conventions host s.declaration with
  | .error fault => (⟨.error fault, []⟩, journal)
  | .ok built =>
    match journal.noteAll built.events with
    | (.error fault, journal) => (⟨.error fault, []⟩, journal)
    | (.ok (), journal) =>
      (⟨.ok built.value, s.registrations conventions built.value⟩, journal)

def runStatements (conventions : Conventions) (host : Host) (journal : Trace.Journal) :
    List Statement → List Recorded × Trace.Journal
  | [] => ([], journal)
  | s :: rest =>
    let (first, journal) := s.run conventions host journal
    let (others, journal) := runStatements conventions host journal rest
    (first :: others, journal)

end ViewRouting.Session
