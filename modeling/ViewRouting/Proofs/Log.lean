import ViewRouting.Proofs.Channels
import ViewRouting.Proofs.Courses

/-! The log of a program. Where the router is heard, the log tells what a history has done to the
draft: a line for each scope that was opened, ahead of all that is said inside it, a line for each
route that was added, with what its entry holds, and a line for the table. What the lines have to
say is written out here, apart from the events. Events are noted before the draft is changed, yet a
step that fails leaves none of these lines. -/

namespace ViewRouting.Trace

/-- What is to be told of the router. -/
structure Tiding where
  point : String
  data : Record Value

/-- The line tells it, as the channel of the router writes it in that style at that time. -/
structure Tells (style : Style) (clock : Instant) (tiding : Tiding) (line : Line) : Prop where
  point : line.event.point = tiding.point
  text : Message.text ⟨"router", tiding.point, .record tiding.data⟩ style clock = .ok line.text

def Event.tiding (e : Event) : Tiding :=
  ⟨e.point, e.data⟩

structure Hears (style : Style) (clock : Instant) (b : Switchboard) : Prop where
  router : b.router = ⟨Topic.router.key, true⟩
  style : b.style = style
  clock : b.clock = clock

theorem fresh_hears {setting : Option String} (enabled : Enables setting Topic.router.key)
    (style : Style) (clock : Instant) : Hears style clock (.fresh setting style clock) := by
  have lower : Text.lower Topic.router.key = Topic.router.key := by decide
  have on := (isOn_iff setting lower).mpr enabled
  refine ⟨?_, rfl, rfl⟩
  show Channel.make (keysOn setting) Topic.router.key = _
  rw [Channel.make, on]

def Event.ofRouter (e : Event) : Bool :=
  e.topic = .router

section Lines
variable {style : Style} {clock : Instant}

/-- What is written of events: among the lines are those that tell of the router. -/
structure Written (style : Style) (clock : Instant) (events : List Event) (lines : List Line) :
    Prop where
  order : (lines.map Line.event).Sublist events
  router : List.Forall₂ (Tells style clock) ((events.filter Event.ofRouter).map Event.tiding)
    (lines.filter fun line => line.event.ofRouter)

theorem note_written {j j' : Journal} (hears : Hears style clock j.board) {e : Event}
    (noted : j.note e = .ok j') :
    j'.board = j.board ∧ ∃ lines, j'.lines = j.lines ++ lines ∧ Written style clock [e] lines := by
  rw [note_eq] at noted
  obtain ⟨text?, sent, rfl⟩ := map_ok.mp noted
  refine ⟨rfl, (text?.map (Line.mk e)).toList, rfl, ?_⟩
  cases topic : e.topic with
  | live =>
    have other : e.ofRouter = false := by simp [Event.ofRouter, topic]
    cases text? <;> exact ⟨by simp, by simp [other]⟩
  | router =>
    have own : e.ofRouter = true := by simp [Event.ofRouter, topic]
    rw [topic] at sent
    simp only [Switchboard.send, Switchboard.builtin, hears.router, hears.style, hears.clock,
      Channel.send, if_true] at sent
    obtain ⟨text, shown, rfl⟩ := map_ok.mp sent
    refine ⟨by simp, ?_⟩
    simp only [Option.map_some, Option.toList_some, List.filter_cons, own, if_true, List.filter_nil]
    exact .cons ⟨rfl, shown⟩ .nil

theorem noteAll_written {j j' : Journal} (hears : Hears style clock j.board) {events : List Event}
    (noted : j.noteAll events = (.ok (), j')) :
    j'.board = j.board ∧
      ∃ lines, j'.lines = j.lines ++ lines ∧ Written style clock events lines := by
  induction events generalizing j with
  | nil =>
    cases noted
    exact ⟨rfl, [], by simp, .slnil, .nil⟩
  | cons e events ih =>
    rw [Journal.noteAll] at noted
    cases first : j.note e with
    | error fault =>
      rw [first] at noted
      cases noted
    | ok next =>
      rw [first] at noted
      obtain ⟨board, lines, grown, written⟩ := note_written hears first
      obtain ⟨boards, others, more, rest⟩ := ih (board ▸ hears) noted
      refine ⟨boards.trans board, lines ++ others, by rw [more, grown, List.append_assoc], ?_, ?_⟩
      · rw [List.map_append]
        exact written.order.append rest.order
      · rw [← List.singleton_append, List.filter_append, List.filter_append, List.map_append]
        exact List.rel_append written.router rest.router

end Lines

end ViewRouting.Trace

namespace ViewRouting.Router
open Trace

/-- Of a scope: where it stands, and undefined for the qualifier or the stem that it lacks. -/
def Frame.tiding (f : Frame) : Tiding where
  point := "scope.enter"
  data := [("path", .string f.path),
    ("alias", match f.qualifier with
      | some qualifier => .string qualifier
      | none => .undefined),
    ("as", f.stem)]

def Entry.tiding (e : Entry) : Tiding where
  point := "route.added"
  data := [("verb", .string e.verb), ("path", .string e.path), ("handler", .string e.handler),
    ("action", .string e.action), ("helper", e.helper)]

def Table.tiding (t : Table) : Tiding where
  point := "table.built"
  data := [("namespace", .string t.name), ("routes", .number (.ofNat t.routes.length))]

@[simp] theorem Frame.event_tiding (f : Frame) : f.event.tiding = f.tiding := by
  obtain ⟨path, qualifier, stem, group, pipes⟩ := f
  cases qualifier <;> rfl

@[simp] theorem Entry.event_tiding (e : Entry) : e.event.tiding = e.tiding := rfl

@[simp] theorem Table.event_tiding (t : Table) : t.event.tiding = t.tiding := rfl

@[simp] theorem Frame.event_ofRouter (f : Frame) : f.event.ofRouter = true := rfl

@[simp] theorem Entry.event_ofRouter (e : Entry) : e.event.ofRouter = true := rfl

@[simp] theorem Table.event_ofRouter (t : Table) : t.event.ofRouter = true := rfl

end ViewRouting.Router

namespace ViewRouting.Session
open Router Live Trace

namespace Turn

def appended (turn : Turn) : List Entry :=
  match turn.step with
  | .operation _ => (turn.left).draft.entries.drop turn.met.draft.entries.length
  | .scope .. => []

/-- The frame of the scope that a turn has opened, so that its body runs. -/
def opened? (turn : Turn) : Option Frame :=
  match turn.step with
  | .operation _ => none
  | .scope path options _ _ =>
    match Drafting.enterScope path options turn.met with
    | .ok _ inner => some inner.draft.current
    | .error _ _ => none

def next (turn : Turn) : Workshop :=
  match turn.step with
  | .operation _ => turn.left
  | .scope path options _ _ =>
    match Drafting.enterScope path options turn.met with
    | .ok _ w | .error _ w => w

/-- What is to be told of a turn: the scope that it opens, the routes that it adds and the table
that it takes. -/
def tidings (turn : Turn) : List Tiding :=
  (turn.opened?.map Frame.tiding).toList ++ (turn.appended).map Entry.tiding ++
    ((turn.taken?).map Table.tiding).toList

/-- The lines of a turn tell its tidings; where it opens a scope they tell nothing else. -/
structure Logged (style : Style) (clock : Instant) (turn : Turn)
    (lines : List Line) : Prop where
  grown : (turn.next).journal.lines = turn.met.journal.lines ++ lines
  tidings : List.Forall₂ (Tells style clock) (turn.tidings)
    (lines.filter fun line => line.event.ofRouter)
  alone : turn.opened?.isSome → lines.length = 1

theorem appended_cases (turn : Turn) :
    (turn.adds = false ∧ turn.appended = []) ∨
      turn.adds = true ∧ ∃ e, turn.Returned e ∧ turn.appended = [e] := by
  obtain ⟨operation | ⟨path, options, propagate, body⟩, met⟩ := turn
  · rw [appended, left, run_operation]
    rcases operate_entries operation met with ⟨adds, same⟩ | ⟨adds, e, returned, more⟩
    · exact .inl ⟨adds, by rw [same, List.drop_length]⟩
    · exact .inr ⟨adds, e, returned, by rw [more, List.drop_left]⟩
  · exact .inl ⟨rfl, rfl⟩

end Turn

/-! What a turn notes. -/

section Turns
variable {style : Style} {clock : Instant} {w : Workshop}

structure Turn.Notes (turn : Turn) (events : List Event) : Prop where
  written : turn.met.journal.noteAll events = (.ok (), (turn.next).journal)
  router : (events.filter Event.ofRouter).map Event.tiding = turn.tidings

theorem next_operation (operation : Operation) :
    Turn.next ⟨.operation operation, w⟩ = (recorded operation.perform w).2 := by
  rw [Turn.next, Turn.left, run_operation]

theorem live_deaf {events : List Event} (live : ∀ e ∈ events, e.topic = .live) :
    events.filter Event.ofRouter = [] := by
  rw [List.filter_eq_nil_iff]
  intro e he
  simp [Event.ofRouter, live e he]

theorem taken?_other {operation : Operation} (other : operation ≠ .finish) :
    Turn.taken? ⟨.operation operation, w⟩ = none := by
  rw [Option.eq_none_iff_forall_ne_some]
  intro t taken
  exact other (Step.operation.inj (Turn.taken?_eq_some.mp taken).1)

theorem notes_nothing {operation : Operation} (other : operation ≠ .finish)
    (still : ∃ d, (recorded operation.perform w).2 = { w with draft := d } ∧
      d.entries = w.draft.entries) :
    Turn.Notes ⟨.operation operation, w⟩ [] := by
  obtain ⟨d, ran, same⟩ := still
  have appended : Turn.appended ⟨.operation operation, w⟩ = [] := by
    rw [Turn.appended, Turn.left, run_operation, ran, same, List.drop_length]
  refine ⟨by rw [next_operation, ran]; rfl, ?_⟩
  rw [Turn.tidings, appended, taken?_other other]
  rfl

def Course.outcome (course : Course Outcome) : Outcome :=
  match course.result with
  | .ok outcome => outcome
  | .error fault => .failed fault none

theorem Takes.recorded {operation : Operation} {course : Course Outcome}
    (takes : Takes operation.perform w.draft course) :
    ∃ noted, w.journal.noteAll course.events = (.ok (), noted) ∧
      recorded operation.perform w = (course.outcome, ⟨course.left, noted⟩) := by
  obtain ⟨noted, written, ran⟩ := takes w.journal
  have ran : operation.perform w = course.ending noted := ran
  refine ⟨noted, written, ?_⟩
  rw [Session.recorded, ran, Course.ending, Course.outcome]
  cases course.result <;> rfl

theorem Takes.notes {operation : Operation} {course : Course Outcome}
    (takes : Takes operation.perform w.draft course)
    (router : (course.events.filter Event.ofRouter).map Event.tiding =
      (course.left.entries.drop w.draft.entries.length).map Entry.tiding ++
        ((Turn.taken? ⟨.operation operation, w⟩).map Table.tiding).toList) :
    Turn.Notes ⟨.operation operation, w⟩ course.events := by
  obtain ⟨noted, written, ran⟩ := takes.recorded
  refine ⟨by rw [next_operation, ran]; exact written, router.trans ?_⟩
  rw [Turn.tidings, Turn.appended, Turn.left, run_operation, ran]
  rfl

theorem operation_notes (hd : DraftSound w.draft) {operation : Operation}
    (typed : operation.Typed) : ∃ events, Turn.Notes ⟨.operation operation, w⟩ events := by
  cases operation with
  | pipeline name plugs =>
    refine ⟨[], notes_nothing (by simp) ?_⟩
    rw [recorded, Operation.perform, bind_run]
    rcases Drafting.pipeline_cases name plugs w with ⟨fault, h⟩ | ⟨-, -, h⟩ <;> rw [h] <;>
      exact ⟨_, rfl, rfl⟩
  | pipe names =>
    refine ⟨[], notes_nothing (by simp) ?_⟩
    rw [recorded, Operation.perform, bind_run]
    rcases Drafting.pipe_cases names w with ⟨fault, h⟩ | ⟨-, -, h⟩ <;> rw [h] <;>
      exact ⟨_, rfl, rfl⟩
  | qualify | inherited | raise | ask => exact ⟨[], notes_nothing (by simp) ⟨_, rfl, rfl⟩⟩
  | add verb path handler action given =>
    rcases takes_addGiven hd verb path handler action typed with ⟨fault, refused⟩ | ⟨e, added⟩
    · have takes : Takes (Operation.add verb path handler action given).perform w.draft _ :=
        refused.answer Outcome.entry
      exact ⟨[], takes.notes (by simp [taken?_other])⟩
    · have takes : Takes (Operation.add verb path handler action given).perform w.draft _ :=
        added.answer Outcome.entry
      exact ⟨[e.event], takes.notes (by simp [taken?_other, List.filter_cons])⟩
  | register c decl =>
    obtain ⟨live, about, registered⟩ := takes_register typed.normal hd decl
    cases settled : settle c w.draft decl with
    | error fault =>
      simp only [settled] at registered
      have takes : Takes (Operation.register c decl).perform w.draft _ :=
        registered.answer Outcome.descriptor
      exact ⟨live, takes.notes (by simp [taken?_other, live_deaf about])⟩
    | ok result =>
      simp only [settled] at registered
      have takes : Takes (Operation.register c decl).perform w.draft _ :=
        registered.answer Outcome.descriptor
      exact ⟨live ++ [result.2.event], takes.notes (by
        simp [taken?_other, live_deaf about, List.filter_cons])⟩
  | describe c decl =>
    have first := takes_describeIn typed.normal hd decl
    cases described : Live.describe c (.ofDraft w.draft) decl with
    | error fault =>
      simp only [described] at first
      have takes : Takes (Operation.describe c decl).perform w.draft _ :=
        first.answer Outcome.descriptor
      exact ⟨[], takes.notes (by simp [taken?_other])⟩
    | ok built =>
      simp only [described] at first
      have takes : Takes (Operation.describe c decl).perform w.draft _ :=
        first.answer Outcome.descriptor
      exact ⟨built.events, takes.notes (by
        simp [taken?_other, live_deaf (described_live described)])⟩
  | finish =>
    have first := takes_finish w.draft
    cases finished : w.draft.finished with
    | true =>
      simp only [finished, if_true] at first
      have takes : Takes Operation.finish.perform w.draft _ := first.answer Outcome.table
      obtain ⟨noted, -, ran⟩ := takes.recorded
      have untaken : Turn.taken? ⟨.operation .finish, w⟩ = none := by
        rw [Turn.taken?, Turn.outcome, run_operation, ran]
        rfl
      exact ⟨[], takes.notes (by simp [untaken])⟩
    | false =>
      simp only [finished, Bool.false_eq_true, if_false] at first
      have takes : Takes Operation.finish.perform w.draft _ := first.answer Outcome.table
      obtain ⟨noted, -, ran⟩ := takes.recorded
      have taken : Turn.taken? ⟨.operation .finish, w⟩ = some w.draft.table := by
        rw [Turn.taken?, Turn.outcome, run_operation, ran]
        rfl
      exact ⟨[w.draft.table.event], takes.notes (by
        simp [taken, Draft.sealed, List.filter_cons])⟩

theorem scope_notes (hd : DraftSound w.draft) {path : String} {options : Value}
    (typed : options.IsScopeOptions) (propagate : Bool) (body : List Step) :
    let turn : Turn := ⟨.scope path options propagate body, w⟩
    (∃ fault, Drafting.enterScope path options w = .error fault w ∧ turn.opened? = none ∧
        turn.Notes []) ∨
      ∃ frame noted, Drafting.enterScope path options w = .ok () ⟨w.draft.into frame, noted⟩ ∧
        turn.opened? = some frame ∧ turn.Notes [frame.event] := by
  intro turn
  have takes := takes_enterScope hd path typed
  cases asked : opening w.draft path options with
  | error fault =>
    rw [asked] at takes
    obtain ⟨_, ⟨⟩, ran⟩ := takes w.journal
    have ran : Drafting.enterScope path options w = .error fault w := ran
    have closed : turn.opened? = none := by
      simp only [turn, Turn.opened?, ran]
    refine .inl ⟨fault, ran, closed, ?_, ?_⟩
    · simp only [turn, Turn.next, ran]
      rfl
    · rw [Turn.tidings, closed]
      rfl
  | ok frame =>
    rw [asked] at takes
    obtain ⟨noted, written, ran⟩ := takes w.journal
    have ran : Drafting.enterScope path options w = .ok () ⟨w.draft.into frame, noted⟩ := ran
    have opened : turn.opened? = some frame := by
      simp only [turn, Turn.opened?, ran]
      rfl
    refine .inr ⟨frame, noted, ran, opened, ?_, ?_⟩
    · simp only [turn, Turn.next, ran]
      exact written
    · rw [Turn.tidings, opened]
      show [frame.event.tiding] = [frame.tiding]
      rw [Frame.event_tiding]

/-! From turns to runs. -/

def Logs (style : Style) (clock : Instant) (w left : Workshop)
    (turns : List Turn) : Prop :=
  left.journal.board = w.journal.board ∧
    ∃ blocks, left.journal.lines = w.journal.lines ++ blocks.flatten ∧
      List.Forall₂ (Turn.Logged style clock) turns blocks

namespace Logs

theorem append {middle left : Workshop} {turns others : List Turn}
    (first : Logs style clock w middle turns) (next : Logs style clock middle left others) :
    Logs style clock w left (turns ++ others) := by
  obtain ⟨board, blocks, lines, logged⟩ := first
  obtain ⟨boards, more, rest, others⟩ := next
  refine ⟨boards.trans board, blocks ++ more, ?_, List.rel_append logged others⟩
  rw [rest, lines, List.flatten_append, List.append_assoc]

theorem turn (turn : Turn) {events : List Event}
    (hears : Hears style clock turn.met.journal.board) (notes : turn.Notes events)
    (alone : turn.opened?.isSome → events.length = 1) :
    Logs style clock turn.met (turn.next) [turn] := by
  obtain ⟨board, lines, grown, written⟩ := noteAll_written hears notes.written
  refine ⟨board, [lines], by rw [grown, List.flatten_singleton], .cons ⟨grown, ?_, ?_⟩ .nil⟩
  · rw [← notes.router]
    exact written.router
  · intro opened
    obtain ⟨frame, hf⟩ := Option.isSome_iff_exists.mp opened
    have most : lines.length ≤ events.length := by simpa using written.order.length_le
    have least : (turn.tidings).length ≤ lines.length := by
      rw [← notes.router, written.router.length_eq]
      exact List.length_filter_le _ _
    have one : 1 ≤ (turn.tidings).length := by
      simp only [Turn.tidings, hf, Option.map_some, Option.toList_some, List.length_append,
        List.length_singleton]
      omega
    rw [alone opened] at most
    exact Nat.le_antisymm most (one.trans least)

end Logs

mutual
theorem history_logs (step : Step) (typed : step.Typed) (w : Workshop)
    (hd : DraftSound w.draft) (hears : Hears style clock w.journal.board) :
    Logs style clock w (step.run w).2 (step.history w) := by
  rcases step with operation | ⟨path, options, propagate, body⟩
  · rw [Step.Typed] at typed
    obtain ⟨events, notes⟩ := operation_notes hd typed
    rw [Step.history]
    exact Logs.turn ⟨.operation operation, w⟩ hears notes nofun
  · rw [Step.Typed] at typed
    let turn : Turn := ⟨.scope path options propagate body, w⟩
    rw [Step.history, run_scope]
    rcases scope_notes hd typed.1 propagate body with
      ⟨fault, refused, closed, notes⟩ | ⟨frame, noted, entered, opened, notes⟩
    · have logs : Logs style clock w (turn.next) [turn] :=
        Logs.turn turn hears notes (by simp [turn, closed])
      simp only [turn, Turn.next, refused] at logs
      rw [refused]
      exact logs
    · have sound : DraftSound (w.draft.into frame) := by
        have move := Move.enter (d := w.draft) path w.journal typed.1
        rw [leftBy, entered] at move
        exact (move_sound hd move).1
      have opening : Logs style clock w (turn.next) [turn] :=
        Logs.turn turn hears notes fun _ => rfl
      simp only [turn, Turn.next, entered] at opening
      have inside := bodyHistory_logs propagate body typed.2 ⟨w.draft.into frame, noted⟩
        sound (opening.1 ▸ hears)
      simp only [entered, scopeOutcome_draft]
      exact opening.append inside

theorem bodyHistory_logs (propagate : Bool) (steps : List Step)
    (typed : BodyTyped steps) (w : Workshop) (hd : DraftSound w.draft)
    (hears : Hears style clock w.journal.board) :
    Logs style clock w (runBody propagate steps w).2 (bodyHistory propagate steps w) := by
  rcases steps with _ | ⟨step, rest⟩
  · exact ⟨rfl, [], by simp [runBody], .nil⟩
  · rw [BodyTyped] at typed
    have first := history_logs step typed.1 w hd hears
    rcases body_cons propagate step rest w with
      ⟨fault, ran, taken⟩ | ⟨report, left, others, ran, taken⟩
    · rw [ran, taken]
      exact first
    · have reached := (run_reaches step typed.1 w).1
      have next := bodyHistory_logs propagate rest typed.2 (step.run w).2
        (reaches_sound hd reached).1 (first.1 ▸ hears)
      rw [others] at next
      rw [ran, taken]
      exact first.append next
end

end Turns

/-! The lines at one point, and what they show. -/

section Points
variable {style : Style} {clock : Instant}

def linesAt (point : String) (lines : List Line) : List Line :=
  lines.filter fun line => line.event.point = point

theorem tidings_at (turn : Turn) :
    (turn.tidings).filter (·.point = "scope.enter") = (turn.opened?.map Frame.tiding).toList ∧
      (turn.tidings).filter (·.point = "route.added") = (turn.appended).map Entry.tiding ∧
      (turn.tidings).filter (·.point = "table.built") =
        ((turn.taken?).map Table.tiding).toList := by
  rw [Turn.tidings]
  generalize turn.opened? = opened?, turn.appended = appended, turn.taken? = taken?
  cases opened? <;> cases taken? <;>
    simp [Frame.tiding, Entry.tiding, Table.tiding]

theorem logged_router {turns : List Turn} {blocks : List (List Line)}
    (logged : List.Forall₂ (Turn.Logged style clock) turns blocks) :
    List.Forall₂ (Tells style clock) (turns.flatMap Turn.tidings)
      (blocks.flatten.filter fun line => line.event.ofRouter) := by
  induction logged with
  | nil => exact .nil
  | cons first _ ih =>
    rw [List.flatMap_cons, List.flatten_cons, List.filter_append]
    exact List.rel_append first.tidings ih

theorem logged_at {turns : List Turn} {blocks : List (List Line)}
    (logged : List.Forall₂ (Turn.Logged style clock) turns blocks) (point : String)
    (own : ∀ e : Event, e.point = point → e.ofRouter) :
    List.Forall₂ (Tells style clock)
      (turns.flatMap fun turn => (turn.tidings).filter (·.point = point))
      (linesAt point blocks.flatten) := by
  have among : linesAt point blocks.flatten =
      (blocks.flatten.filter fun line => line.event.ofRouter).filter
        fun line => line.event.point = point := by
    rw [linesAt, List.filter_filter]
    congr 1
    funext line
    by_cases at? : line.event.point = point
    · simp [at?, own line.event at?]
    · simp [at?]
  rw [among, ← List.filter_flatMap]
  apply List.rel_filter _ (logged_router logged)
  intro tiding line tells
  simp only [tells.point]

end Points

theorem Leads.appended {d d' : Draft} {turns : List Turn}
    (h : Leads d turns d') : d'.entries = d.entries ++ turns.flatMap Turn.appended := by
  induction h with
  | done => exact (List.append_nil _).symm
  | @leave d _ _ _ ih =>
    rw [Draft.leave_with d] at ih
    exact ih
  | @operate operation w d' turns rest ih =>
    have first : (recorded operation.perform w).2.draft.entries =
        w.draft.entries ++ Turn.appended ⟨.operation operation, w⟩ := by
      rw [Turn.appended, Turn.left, run_operation]
      rcases operate_entries operation w with ⟨-, same⟩ | ⟨-, e, -, more⟩
      · rw [same, List.drop_length, List.append_nil]
      · rw [more, List.drop_left]
    rw [ih, first, List.flatMap_cons, List.append_assoc]
  | refused _ ih => exact ih
  | enter opened _ ih =>
    obtain ⟨-, frame, entered⟩ := Drafting.enterScope_ok opened
    rw [entered] at ih
    exact ih

/-- The lines tell of a history what it has done to the draft, and nothing else about the router. -/
structure Mirrors (style : Style) (clock : Instant) (turns : List Turn)
    (left : Workshop) : Prop where
  /-- The lines of a scope call stand before those of its body, as the turns do. -/
  whole : ∃ blocks, left.journal.lines = blocks.flatten ∧
    List.Forall₂ (Turn.Logged style clock) turns blocks
  routes : List.Forall₂ (Tells style clock) (left.draft.entries.map Entry.tiding)
    (linesAt "route.added" left.journal.lines)
  scopes : List.Forall₂ (Tells style clock) ((turns.filterMap Turn.opened?).map Frame.tiding)
    (linesAt "scope.enter" left.journal.lines)
  tables : List.Forall₂ (Tells style clock) ((turns.filterMap Turn.taken?).map Table.tiding)
    (linesAt "table.built" left.journal.lines)
  /-- Each route was added by the one turn that returned it. -/
  appended : left.draft.entries = turns.flatMap Turn.appended ∧
    ∀ turn ∈ turns, (turn.adds = false ∧ turn.appended = []) ∨
      turn.adds = true ∧ ∃ e, turn.Returned e ∧ turn.appended = [e]

/-- Where the setting enables the router, the log of a program mirrors its table. -/
theorem log_mirrors_table {name : String}
    {options : RouterOptions} (optionsTyped : options.Typed) {start : Draft}
    (started : Draft.start name options = .ok start) {setting : Option String}
    (enabled : Enables setting Topic.router.key) (style : Style) (clock : Instant)
    (propagate : Bool) {steps : List Step} (typed : BodyTyped steps) :
    let w : Workshop := ⟨start, ⟨.fresh setting style clock, []⟩⟩
    Mirrors style clock (bodyHistory propagate steps w) (runBody propagate steps w).2 := by
  intro w
  have sound := start_sound optionsTyped started
  obtain ⟨-, blocks, lines, logged⟩ := bodyHistory_logs propagate steps typed w sound
    (fresh_hears enabled style clock)
  have leads : Leads w.draft (bodyHistory propagate steps w ++ [])
      (runBody propagate steps w).2.draft :=
    bodyHistory_leads propagate steps w (.done _)
  rw [List.append_nil] at leads
  have fresh : w.draft.entries = [] := by
    show start.entries = []
    rw [start_ok started]
  have entries := leads.appended
  rw [fresh, List.nil_append] at entries
  have whole : (runBody propagate steps w).2.journal.lines = blocks.flatten := lines
  have own (point : String) (among : point ∈ ["scope.enter", "route.added", "table.built"]) :
      ∀ e : Event, e.point = point → e.ofRouter := by
    rintro e rfl
    cases e <;> first | rfl | simp [Event.point] at among
  exact {
    whole := ⟨blocks, whole, logged⟩
    routes := by
      have shown := logged_at logged "route.added" (own _ (by simp))
      simp only [tidings_at] at shown
      rwa [whole, entries, List.map_flatMap]
    scopes := by
      have shown := logged_at logged "scope.enter" (own _ (by simp))
      simp only [tidings_at] at shown
      rwa [whole, List.map_filterMap, List.filterMap_eq_flatMap_toList]
    tables := by
      have shown := logged_at logged "table.built" (own _ (by simp))
      simp only [tidings_at] at shown
      rwa [whole, List.map_filterMap, List.filterMap_eq_flatMap_toList]
    appended := ⟨entries, fun turn _ => turn.appended_cases⟩ }

theorem log_mirrors_table_nested :
    let w (style : Style) : Workshop :=
      ⟨freshWorkshop.draft, ⟨.fresh (some "router") style .epoch, []⟩⟩
    let left (style : Style) := (runBody false nestedProgram (w style)).2
    (∀ style, Mirrors style .epoch (bodyHistory false nestedProgram (w style)) (left style)) ∧
      (left ⟨.json, false⟩).journal.lines.map Line.text =
        ["\x7b\"channel\":\"router\",\"point\":\"route.added\",\"data\":\x7b" ++
            "\"verb\":\"GET\",\"path\":\"/\",\"handler\":\"PageController\"," ++
            "\"action\":\"index\",\"helper\":\"page\"\x7d\x7d",
          "\x7b\"channel\":\"router\",\"point\":\"scope.enter\",\"data\":\x7b" ++
            "\"path\":\"/admin\",\"alias\":\"Admin\"\x7d\x7d",
          "\x7b\"channel\":\"router\",\"point\":\"route.added\",\"data\":\x7b" ++
            "\"verb\":\"GET\",\"path\":\"/admin/users\",\"handler\":\"LiveView.Plug\"," ++
            "\"action\":\"index\",\"helper\":\"user_index\"\x7d\x7d",
          "\x7b\"channel\":\"router\",\"point\":\"table.built\",\"data\":\x7b" ++
            "\"namespace\":\"App.Router\",\"routes\":2\x7d\x7d"] ∧
      (left ⟨.pretty, true⟩).journal.lines.map Line.text =
        ["[1970-01-01T00:00:00.000Z] [router.route.added] \x7b verb=\"GET\", path=\"/\", " ++
            "handler=\"PageController\", action=\"index\", helper=\"page\" \x7d",
          "[1970-01-01T00:00:00.000Z] [router.scope.enter] \x7b path=\"/admin\", " ++
            "alias=\"Admin\", as=undefined \x7d",
          "[1970-01-01T00:00:00.000Z] [router.route.added] \x7b verb=\"GET\", " ++
            "path=\"/admin/users\", handler=\"LiveView.Plug\", action=\"index\", " ++
            "helper=\"user_index\" \x7d",
          "[1970-01-01T00:00:00.000Z] [router.table.built] \x7b namespace=\"App.Router\", " ++
            "routes=2 \x7d"] := by
  intro w left
  have typed : BodyTyped nestedProgram := by
    have absent : Value.undefined.IsAddOptions := .inl rfl
    have named : (Value.string "Admin").IsScopeOptions := .inl ⟨"Admin", rfl⟩
    have bare : (Value.record []).IsScopeOptions :=
      .inr ⟨.ordinary, [], rfl, .inl rfl, .inl rfl, .inl rfl, .inl rfl, .inl rfl⟩
    simp [nestedProgram, BodyTyped, Step.Typed, Operation.Typed, absent, named, bare,
      Conventions.normalized_default]
  have started : Draft.start "App.Router" {} = .ok freshWorkshop.draft := if_pos (by decide)
  refine ⟨fun style => ?_, ?_, ?_⟩
  · exact log_mirrors_table ⟨"Controller", rfl⟩ started (by decide +kernel) style _ _ typed
  · decide +kernel
  · decide +kernel

end ViewRouting.Session
