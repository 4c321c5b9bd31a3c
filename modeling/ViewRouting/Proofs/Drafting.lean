import ViewRouting.Proofs.Notes
import ViewRouting.Session.Program

/-! What drafting steps do to the draft. An operation that fails leaves the draft as it was, and the
others change one part of it: `perform_effect` lists all that an operation can do, with the checks
that it has passed. Only the journal may have grown before a failure. -/

namespace ViewRouting.Router

def Draft.entry (d : Draft) (r : Live.Registration) (helper : Value) : Entry where
  verb := r.verb
  path := Path.join d.current.path r.path
  handler := if r.options.qualified then d.qualify r.handler else r.handler
  action := r.action
  helper := helper
  pipes := d.pipes
  dispatchData := r.options.dispatchData
  publicData := r.options.publicData

/-- The entry of a route, unless something is wrong with the route or the draft. -/
def Draft.accept (d : Draft) (r : Live.Registration) : Except Fault Entry := do
  if d.finished then throw (.router (.finished d.name))
  (Path.requireRooted r.path).mapError .router
  let own ← d.ownHelper r.options.helper r.handler
  let helper ← helperUnder d.current.stem own
  return d.entry r helper

theorem Draft.accept_ok {d : Draft} {r : Live.Registration} {e : Entry} :
    d.accept r = .ok e ↔ d.finished = false ∧ Path.isRooted r.path ∧
      ∃ own helper, d.ownHelper r.options.helper r.handler = .ok own ∧
        helperUnder d.current.stem own = .ok helper ∧ e = d.entry r helper := by
  rw [accept]
  cases d.finished with
  | true => simp [bind, Except.bind]
  | false =>
    simp only [Bool.false_eq_true, if_false, bind_ok, mapError_ok, Path.requireRooted]
    constructor
    · rintro ⟨_, hr, own, ho, helper, hh, he⟩
      split at hr
      · next rooted => exact ⟨trivial, rooted, own, helper, ho, hh, by cases he; rfl⟩
      · cases hr
    · rintro ⟨-, rooted, own, helper, ho, hh, rfl⟩
      exact ⟨(), by simp [rooted], own, ho, helper, hh, rfl⟩

def Draft.into (d : Draft) (frame : Frame) : Draft :=
  { d with current := frame, enclosing := d.current :: d.enclosing }

def Draft.leave (d : Draft) : Draft :=
  match d.enclosing with
  | outer :: rest => { d with current := outer, enclosing := rest }
  | [] => d

theorem Draft.leave_with (d : Draft) :
    d.leave = { d with current := d.leave.current, enclosing := d.leave.enclosing } := by
  rw [leave]
  split <;> rfl

def Draft.sealed (d : Draft) : Draft :=
  { d with finished := true }

def Workshop.sealed (w : Workshop) : Workshop :=
  { w with draft := w.draft.sealed }

theorem Draft.leave_sealed (d : Draft) : d.sealed.leave = d.leave.sealed := by
  rcases d with ⟨_, _, _, _, _ | _, _, _⟩ <;> rfl

namespace Drafting

variable {α β ε : Type}

@[simp] theorem draft_run (w : Workshop) : draft w = .ok w.draft w := rfl

@[simp] theorem change_run (f : Draft → Draft) (w : Workshop) :
    change f w = .ok () { w with draft := f w.draft } := rfl

@[simp] theorem check_run (cause : ε → Fault) (e : Except ε α) (w : Workshop) :
    check cause e w =
      match e with
      | .ok a => .ok a w
      | .error e => .error (cause e) w := by
  cases e <;> rfl

@[simp] theorem note_run (events : List Trace.Event) (w : Workshop) :
    note events w =
      match w.journal.noteAll events with
      | (.ok _, journal) => .ok () { w with journal := journal }
      | (.error fault, journal) => .error fault { w with journal := journal } := by
  show check id (w.journal.noteAll events).1 { w with journal := (w.journal.noteAll events).2 } = _
  rcases w.journal.noteAll events with ⟨_ | _, journal⟩ <;> rfl

@[simp] theorem requireOpen_run (w : Workshop) :
    requireOpen w =
      if w.draft.finished then .error (.router (.finished w.draft.name)) w else .ok () w := by
  show (if w.draft.finished then throw (.router (.finished w.draft.name)) else pure () :
    Drafting Unit) w = _
  cases w.draft.finished <;> rfl

theorem scope_run (path : String) (options : Value) (body : Drafting α) (w : Workshop) :
    scope path options body w =
      match enterScope path options w with
      | .error fault w => .error fault w
      | .ok _ w =>
        match body w with
        | .ok a w => .ok a { w with draft := w.draft.leave }
        | .error fault w => .error fault { w with draft := w.draft.leave } := by
  rw [scope, bind_run]
  cases enterScope path options w with
  | error fault w => rfl
  | ok _ w =>
    simp only [bind_run, attempt]
    cases body w <;> rfl

theorem pipeline_cases (name : String) (plugs : List Plug) (w : Workshop) :
    (∃ fault, pipeline name plugs w = .error fault w) ∨
      w.draft.finished = false ∧ w.draft.pipelines.lookup name = none ∧
        pipeline name plugs w = .ok () { w with
          draft := { w.draft with pipelines := w.draft.pipelines ++ [(name, plugs)] } } := by
  rw [pipeline, bind_run, requireOpen_run]
  cases hf : w.draft.finished with
  | true => exact .inl ⟨_, rfl⟩
  | false =>
    simp only [Bool.false_eq_true, if_false, bind_run, draft_run]
    cases hl : w.draft.pipelines.lookup name with
    | some plugs => exact .inl ⟨_, rfl⟩
    | none => exact .inr ⟨trivial, rfl, rfl⟩

theorem pipe_cases (names : List String) (w : Workshop) :
    (∃ fault, pipe names w = .error fault w) ∨
      w.draft.finished = false ∧ (∀ name ∈ names, (w.draft.pipelines.lookup name).isSome) ∧
        pipe names w = .ok () { w with
          draft := { w.draft with
            current := { w.draft.current with pipes := w.draft.current.pipes ++ names } } } := by
  rw [pipe, bind_run, requireOpen_run]
  cases hf : w.draft.finished with
  | true => exact .inl ⟨_, rfl⟩
  | false =>
    simp only [Bool.false_eq_true, if_false, bind_run, draft_run]
    cases hl : names.find? fun name => (w.draft.pipelines.lookup name).isNone with
    | some name => exact .inl ⟨_, rfl⟩
    | none =>
      refine .inr ⟨trivial, ?_, rfl⟩
      intro name hn
      have := List.find?_eq_none.mp hl name hn
      simpa using this

theorem enterScope_cases (path : String) (options : Value) (w : Workshop) :
    (∃ fault journal, enterScope path options w = .error fault { w with journal := journal }) ∨
      ∃ frame journal, w.draft.finished = false ∧
        w.draft.current.enter path options = .ok frame ∧
        enterScope path options w = .ok () ⟨w.draft.into frame, journal⟩ := by
  rw [enterScope, bind_run, requireOpen_run]
  cases hf : w.draft.finished with
  | true => exact .inl ⟨_, w.journal, rfl⟩
  | false =>
    simp only [Bool.false_eq_true, if_false, bind_run, draft_run, check_run]
    cases he : w.draft.current.enter path options with
    | error fault => exact .inl ⟨_, w.journal, rfl⟩
    | ok frame =>
      simp only [note_run]
      rcases w.journal.noteAll _ with ⟨fault | _, journal⟩
      · exact .inl ⟨fault, journal, rfl⟩
      · exact .inr ⟨frame, journal, trivial, rfl, rfl⟩

theorem enterScope_ok {path : String} {options : Value} {w inner : Workshop}
    (opened : enterScope path options w = .ok () inner) :
    w.draft.finished = false ∧ ∃ frame, inner.draft = w.draft.into frame := by
  rcases enterScope_cases path options w with
    ⟨fault, journal, h⟩ | ⟨frame, journal, unfinished, -, h⟩
  · cases h.symm.trans opened
  · cases h.symm.trans opened
    exact ⟨unfinished, frame, rfl⟩

theorem enterScope_error {path : String} {options : Value} {w left : Workshop} {fault : Fault}
    (refused : enterScope path options w = .error fault left) : left.draft = w.draft := by
  rcases enterScope_cases path options w with ⟨fault, journal, h⟩ | ⟨frame, journal, -, -, h⟩
  · cases h.symm.trans refused
    rfl
  · cases h.symm.trans refused

theorem add_run (r : Live.Registration) (w : Workshop) :
    add r.verb r.path r.handler r.action r.options w =
      match w.draft.accept r with
      | .error fault => .error fault w
      | .ok e =>
        match w.journal.noteAll [.routeAdded e.verb e.path e.handler e.action e.helper] with
        | (.ok _, journal) =>
          .ok e ⟨{ w.draft with entries := w.draft.entries ++ [e] }, journal⟩
        | (.error fault, journal) => .error fault { w with journal := journal } := by
  rw [add, Draft.accept, bind_run, requireOpen_run]
  cases w.draft.finished with
  | true => rfl
  | false =>
    simp only [Bool.false_eq_true, if_false, bind_run, draft_run, check_run, note_run]
    cases Path.requireRooted r.path with
    | error fault => rfl
    | ok _ =>
      cases ho : w.draft.ownHelper r.options.helper r.handler with
      | error fault => simp [ho, bind, Except.bind]
      | ok own =>
        cases hh : helperUnder w.draft.current.stem own with
        | error fault => simp [ho, hh, bind, Except.bind]
        | ok helper =>
          simp only [ho, hh, bind, Except.bind, ok_mapError, pure, Except.pure, Draft.entry]
          rcases w.journal.noteAll _ with ⟨_ | _, journal⟩ <;> rfl

theorem add_cases (r : Live.Registration) (w : Workshop) :
    (∃ fault journal, add r.verb r.path r.handler r.action r.options w =
        .error fault { w with journal := journal }) ∨
      ∃ e journal, w.draft.accept r = .ok e ∧
        add r.verb r.path r.handler r.action r.options w =
          .ok e ⟨{ w.draft with entries := w.draft.entries ++ [e] }, journal⟩ := by
  rw [add_run]
  cases w.draft.accept r with
  | error fault => exact .inl ⟨fault, w.journal, rfl⟩
  | ok e =>
    simp only
    rcases w.journal.noteAll _ with ⟨fault | _, journal⟩
    · exact .inl ⟨fault, journal, rfl⟩
    · exact .inr ⟨e, journal, rfl, rfl⟩

theorem addGiven_cases (verb path handler action : String) (given : Value) (w : Workshop) :
    (∃ fault journal, addGiven verb path handler action given w =
        .error fault { w with journal := journal }) ∨
      ∃ options e journal, AddOptions.ofValue given = .ok options ∧
        w.draft.accept ⟨verb, path, handler, action, options⟩ = .ok e ∧
        addGiven verb path handler action given w =
          .ok e ⟨{ w.draft with entries := w.draft.entries ++ [e] }, journal⟩ := by
  rw [addGiven, bind_run, requireOpen_run]
  cases w.draft.finished with
  | true => exact .inl ⟨_, w.journal, rfl⟩
  | false =>
    simp only [Bool.false_eq_true, if_false, bind_run, check_run]
    cases Path.requireRooted path with
    | error fault => exact .inl ⟨_, w.journal, rfl⟩
    | ok _ =>
      cases AddOptions.ofValue given with
      | error fault => exact .inl ⟨_, w.journal, rfl⟩
      | ok options =>
        rcases add_cases ⟨verb, path, handler, action, options⟩ w with
          ⟨fault, journal, h⟩ | ⟨e, journal, accepted, h⟩
        · exact .inl ⟨fault, journal, h⟩
        · exact .inr ⟨options, e, journal, rfl, accepted, h⟩

theorem finish_cases (w : Workshop) :
    (∃ fault, finish w = .error fault w) ∨
      ∃ journal, w.draft.finished = false ∧
        finish w = .ok w.draft.table ⟨{ w.draft with finished := true }, journal⟩ := by
  -- The draft is finished before the table is noted, but that note can always be written.
  rw [finish, bind_run, requireOpen_run]
  cases hf : w.draft.finished with
  | true => exact .inl ⟨_, rfl⟩
  | false =>
    obtain ⟨journal, noted⟩ := Trace.noteAll_ok (List.forall_mem_singleton.mpr
      (Trace.tableBuilt_plain w.draft.name w.draft.entries.length)) w.journal
    refine .inr ⟨journal, rfl, ?_⟩
    simp only [Bool.false_eq_true, if_false, bind_run, change_run, draft_run, note_run, noted]
    rfl

end Drafting

end ViewRouting.Router

namespace ViewRouting.Live
open Router Drafting

theorem describeIn_run (c : Conventions) (decl : Declaration) (w : Workshop) :
    describeIn c decl w =
      match describe c (.ofDraft w.draft) decl with
      | .error fault => .error fault w
      | .ok built =>
        match w.journal.noteAll built.events with
        | (.ok _, journal) => .ok built.value { w with journal := journal }
        | (.error fault, journal) => .error fault { w with journal := journal } := by
  rw [describeIn, bind_run]
  simp only [draft_run, bind_run, check_run]
  cases describe c (.ofDraft w.draft) decl with
  | error fault => rfl
  | ok built =>
    simp only [note_run]
    rcases w.journal.noteAll built.events with ⟨_ | _, journal⟩ <;> rfl

theorem describeIn_cases (c : Conventions) (decl : Declaration) (w : Workshop) :
    (∃ fault journal, describeIn c decl w = .error fault { w with journal := journal }) ∨
      ∃ built journal, describe c (.ofDraft w.draft) decl = .ok built ∧
        describeIn c decl w = .ok built.value { w with journal := journal } := by
  rw [describeIn_run]
  cases describe c (.ofDraft w.draft) decl with
  | error fault => exact .inl ⟨fault, w.journal, rfl⟩
  | ok built =>
    simp only
    rcases w.journal.noteAll built.events with ⟨fault | _, journal⟩
    · exact .inl ⟨fault, journal, rfl⟩
    · exact .inr ⟨built, journal, rfl, rfl⟩

theorem register_cases (c : Conventions) (decl : Declaration) (w : Workshop) :
    (∃ fault journal, register c decl w = .error fault { w with journal := journal }) ∨
      ∃ built e journal, describe c (.ofDraft w.draft) decl = .ok built ∧
        w.draft.accept (built.value.registration c) = .ok e ∧
        register c decl w =
          .ok built.value ⟨{ w.draft with entries := w.draft.entries ++ [e] }, journal⟩ := by
  rw [register, bind_run]
  rcases describeIn_cases c decl w with ⟨fault, journal, h⟩ | ⟨built, journal, described, h⟩
  · exact .inl ⟨fault, journal, by rw [h]⟩
  · simp only [h, bind_run]
    rcases add_cases (built.value.registration c) { w with journal := journal } with
      ⟨fault, journal, h⟩ | ⟨e, journal, accepted, h⟩
    · exact .inl ⟨fault, journal, by rw [h]⟩
    · exact .inr ⟨built, e, journal, described, accepted, by rw [h]; rfl⟩

end ViewRouting.Live

namespace ViewRouting.Session
open Router Live Drafting

/-- What an operation may do to a draft, with the checks that it has passed then. -/
inductive Effect (d : Draft) : Operation → Draft → Prop
  | still (operation : Operation) : Effect d operation d
  | pipeline {name : String} (plugs : List Plug) (unfinished : d.finished = false)
      (new : d.pipelines.lookup name = none) :
      Effect d (.pipeline name plugs) { d with pipelines := d.pipelines ++ [(name, plugs)] }
  | pipe {names : List String} (unfinished : d.finished = false)
      (known : ∀ name ∈ names, (d.pipelines.lookup name).isSome) :
      Effect d (.pipe names)
        { d with current := { d.current with pipes := d.current.pipes ++ names } }
  | add {verb path handler action : String} {given : Value} {options : AddOptions} {e : Entry}
      (read : AddOptions.ofValue given = .ok options)
      (accepted : d.accept ⟨verb, path, handler, action, options⟩ = .ok e) :
      Effect d (.add verb path handler action given) { d with entries := d.entries ++ [e] }
  | register {c : Conventions} {decl : Declaration} {built : Observed Descriptor} {e : Entry}
      (described : describe c (.ofDraft d) decl = .ok built)
      (accepted : d.accept (built.value.registration c) = .ok e) :
      Effect d (.register c decl) { d with entries := d.entries ++ [e] }
  | finish (unfinished : d.finished = false) : Effect d .finish { d with finished := true }

theorem perform_cases (operation : Operation) (w : Workshop) :
    (∃ fault journal, operation.perform w = .error fault { w with journal := journal }) ∨
      ∃ outcome w', operation.perform w = .ok outcome w' ∧
        Effect w.draft operation w'.draft := by
  cases operation with
  | pipeline name plugs =>
    rw [Operation.perform, bind_run]
    rcases pipeline_cases name plugs w with ⟨fault, h⟩ | ⟨unfinished, new, h⟩
    · rw [h]
      exact .inl ⟨fault, w.journal, rfl⟩
    · rw [h]
      exact .inr ⟨_, _, rfl, .pipeline plugs unfinished new⟩
  | pipe names =>
    rw [Operation.perform, bind_run]
    rcases pipe_cases names w with ⟨fault, h⟩ | ⟨unfinished, known, h⟩
    · rw [h]
      exact .inl ⟨fault, w.journal, rfl⟩
    · rw [h]
      exact .inr ⟨_, _, rfl, .pipe unfinished known⟩
  | add verb path handler action given =>
    rw [Operation.perform, bind_run]
    rcases addGiven_cases verb path handler action given w with
      ⟨fault, journal, h⟩ | ⟨options, e, journal, read, accepted, h⟩
    · rw [h]
      exact .inl ⟨fault, journal, rfl⟩
    · rw [h]
      exact .inr ⟨_, _, rfl, .add read accepted⟩
  | register c decl =>
    rw [Operation.perform, bind_run]
    rcases register_cases c decl w with
      ⟨fault, journal, h⟩ | ⟨built, e, journal, described, accepted, h⟩
    · rw [h]
      exact .inl ⟨fault, journal, rfl⟩
    · rw [h]
      exact .inr ⟨_, _, rfl, .register described accepted⟩
  | describe c decl =>
    rw [Operation.perform, bind_run]
    rcases describeIn_cases c decl w with ⟨fault, journal, h⟩ | ⟨built, journal, -, h⟩
    · rw [h]
      exact .inl ⟨fault, journal, rfl⟩
    · rw [h]
      exact .inr ⟨_, _, rfl, .still _⟩
  | finish =>
    rw [Operation.perform, bind_run]
    rcases finish_cases w with ⟨fault, h⟩ | ⟨journal, unfinished, h⟩
    · rw [h]
      exact .inl ⟨fault, w.journal, rfl⟩
    · rw [h]
      exact .inr ⟨_, _, rfl, .finish unfinished⟩
  | raise message => exact .inl ⟨.raised message, w.journal, rfl⟩
  | qualify reference => exact .inr ⟨_, w, rfl, .still _⟩
  | inherited => exact .inr ⟨_, w, rfl, .still _⟩
  | ask query => exact .inr ⟨_, w, rfl, .still _⟩

theorem run_operation (operation : Operation) (w : Workshop) :
    Step.run (.operation operation) w = recorded operation.perform w := by
  rw [Step.run]

theorem perform_effect (operation : Operation) (w : Workshop) :
    Effect w.draft operation (recorded operation.perform w).2.draft := by
  rw [recorded]
  rcases perform_cases operation w with ⟨fault, journal, h⟩ | ⟨outcome, w', h, effect⟩
  · rw [h]
    exact .still _
  · rw [h]
    exact effect

theorem perform_error {operation : Operation} {w w' : Workshop} {fault : Fault}
    (failed : operation.perform w = .error fault w') : w'.draft = w.draft := by
  rcases perform_cases operation w with ⟨fault, journal, h⟩ | ⟨outcome, left, h, -⟩
  · cases h.symm.trans failed
    rfl
  · cases h.symm.trans failed

end ViewRouting.Session
