import ViewRouting.Proofs.Lexical.Site
import ViewRouting.Session.Program

/-! Programs read by their text. A reading keeps no stack: what every step may see of the others is
a ledger that only grows, and what it sees of the scopes it stands in is its site, which is handed
down to it. A scope is read by reading its body at a site within; nothing is closed afterwards,
because the steps that follow are read at the site that they stand at themselves. -/

namespace ViewRouting.Lexical
open Router Live Session

/-- What is settled before the first step. -/
structure Heading where
  name : String
  handlerSuffix : Value

/-- What the steps so far have written down, wherever they stand. -/
structure Ledger where
  pipelines : Pipelines := []
  entries : List Entry := []
  finished : Bool := false
  journal : Trace.Journal

abbrev Reading := EStateM Fault Ledger

namespace Reading

def check {ε α : Type} (cause : ε → Fault) : Except ε α → Reading α
  | .ok a => pure a
  | .error e => throw (cause e)

def note (events : List Trace.Event) : Reading Unit := do
  let l ← get
  let (result, journal) := l.journal.noteAll events
  set { l with journal := journal }
  check id result

theorem check_run {ε α : Type} (cause : ε → Fault) (e : Except ε α) (l : Ledger) :
    check cause e l =
      match e with
      | .ok a => .ok a l
      | .error e => .error (cause e) l := by
  cases e <;> rfl

theorem note_run (events : List Trace.Event) (l : Ledger) :
    note events l =
      match l.journal.noteAll events with
      | (.ok _, journal) => .ok () { l with journal := journal }
      | (.error fault, journal) => .error fault { l with journal := journal } := by
  show check id (l.journal.noteAll events).1 { l with journal := (l.journal.noteAll events).2 } = _
  rcases l.journal.noteAll events with ⟨_ | _, journal⟩ <;> rfl

variable (h : Heading) (s : Site)

def requireOpen : Reading Unit := do
  let l ← get
  if l.finished then throw (.router (.finished h.name))

def pipeline (name : String) (plugs : List Plug) : Reading Unit := do
  requireOpen h
  let l ← get
  if (l.pipelines.lookup name).isSome then throw (.router (.pipelineDefined name))
  modify fun l => { l with pipelines := l.pipelines ++ [(name, plugs)] }

def requireKnown (names : List String) : Reading Unit := do
  requireOpen h
  let l ← get
  match names.find? fun name => (l.pipelines.lookup name).isNone with
  | some name => throw (.router (.pipelineUnknown name))
  | none => pure ()

def ownHelper (given : Value) (handler : String) : Except Fault Value :=
  if given.isNullish then (Draft.handlerHelper h.handlerSuffix handler).map .string else .ok given

def entry (verb path handler action : String) (own : Value) (options : AddOptions) : Entry where
  verb := verb
  path := s.path path
  handler := if options.qualified then s.qualify handler else handler
  action := action
  helper := s.helper own
  pipes := s.pipes
  dispatchData := options.dispatchData
  publicData := options.publicData

def add (verb path handler action : String) (options : AddOptions) : Reading Entry := do
  requireOpen h
  check .router (Path.requireRooted path)
  let own ← check id (ownHelper h options.helper handler)
  let _ ← check id (readHelper own)
  let entry := entry s verb path handler action own options
  note [.routeAdded verb entry.path entry.handler action entry.helper]
  modify fun l => { l with entries := l.entries ++ [entry] }
  return entry

def addGiven (verb path handler action : String) (options : Value) : Reading Entry := do
  requireOpen h
  check .router (Path.requireRooted path)
  add h s verb path handler action (← check id (AddOptions.ofValue options))

def host (pipelines : Pipelines) : Host where
  name := h.name
  qualify := s.qualify
  inherited := (s.inherited pipelines).fields

def describe (c : Conventions) (d : Declaration) : Reading Descriptor := do
  let l ← get
  let built ← check id (Live.describe c (host h s l.pipelines) d)
  note built.events
  return built.value

def register (c : Conventions) (d : Declaration) : Reading Descriptor := do
  let descriptor ← describe h s c d
  let r := descriptor.registration c
  let _ ← add h s r.verb r.path r.handler r.action r.options
  return descriptor

def finish : Reading Table := do
  requireOpen h
  modify fun l => { l with finished := true }
  let l ← get
  note [.tableBuilt h.name l.entries.length]
  return ⟨h.name, l.entries⟩

def perform : Operation → Reading Outcome
  | .pipeline name plugs => do pipeline h name plugs; return .done
  | .pipe names => do requireKnown h names; return .done
  | .qualify reference => return .text (s.qualify reference)
  | .inherited => do
    let l ← get
    return .value (.record (s.inherited l.pipelines).fields)
  | .add verb path handler action options => do
    return .entry (← addGiven h s verb path handler action options)
  | .register c declaration => do return .descriptor (← register h s c declaration)
  | .describe c declaration => do return .descriptor (← describe h s c declaration)
  | .finish => do return .table (← finish h)
  | .raise message => throw (.raised message)
  | .ask query => do
    let l ← get
    return query.run ⟨h.name, l.entries⟩

def openScope (path : String) (options : Value) : Reading Opening := do
  requireOpen h
  let o ← check id (Opening.read path options)
  let inner := s.within o
  note [.scopeEntered (inner.path "/") inner.qualifier inner.stem]
  return o

end Reading

/-- The pipelines that the steps after an operation pass in addition, in the same body. -/
def piped : Operation → List String
  | .pipe names => names
  | _ => []

mutual
/-- The outcome of a step, and the site that the next step of its body stands at. -/
def readStep (h : Heading) (s : Site) :
    Step → Ledger → Outcome × Site × Ledger
  | .operation operation, l =>
    match Reading.perform h s operation l with
    | .ok outcome l => (outcome, s.piping (piped operation), l)
    | .error fault l => (.failed fault none, s, l)
  | .scope path options propagate body, l =>
    match Reading.openScope h s path options l with
    | .error fault l => (.failed fault (some []), s, l)
    | .ok o l =>
      let (report, l) := readBody h propagate (s.within o) body l
      match report.fault with
      | none => (.scope report.outcomes, s, l)
      | some fault => (.failed fault (some report.outcomes), s, l)

/-- Reads the steps of one body in order; if `propagate`, up to the first that fails. -/
def readBody (h : Heading) (propagate : Bool) (s : Site) :
    List Step → Ledger → Report × Ledger
  | [], l => (⟨[], none⟩, l)
  | step :: rest, l =>
    let (outcome, s, l) := readStep h s step l
    match propagate, outcome.fault? with
    | true, some fault => (⟨[outcome], some fault⟩, l)
    | _, _ =>
      let (report, l) := readBody h propagate s rest l
      (⟨outcome :: report.outcomes, report.fault⟩, l)
end

end ViewRouting.Lexical
