import ViewRouting.Proofs.Histories
import ViewRouting.Proofs.Notes
import ViewRouting.Proofs.Precedence

/-! What tracing does to a definition. Events are noted in the middle of most steps, some before
the draft is changed, and an event that could not be written would end its step there. No event of
typed callers is one of these: what it shows of values that were never checked has passed as a
name, and nothing with a big integer in it reads as a name. So every step takes a course that the
journal has no say in, with its result, its draft and its events, and so does every program. -/

namespace ViewRouting.Router

/-! What is noted where a scope is opened, a route is added and the table is taken. -/

def Frame.event (f : Frame) : Trace.Event :=
  .scopeEntered f.path f.qualifier f.stem

def Entry.event (e : Entry) : Trace.Event :=
  .routeAdded e.verb e.path e.handler e.action e.helper

def Table.event (t : Table) : Trace.Event :=
  .tableBuilt t.name t.routes.length

end ViewRouting.Router

namespace ViewRouting.Live
open Naming Router

/-! Events can be written. -/

theorem text_plain {v : Value} (h : v.IsText) : v.holdsBigint = false := by
  obtain ⟨s, rfl⟩ := h
  rfl

theorem text_single {v : Value} {s : String} (text : (Value.array [v]).text? = some s)
    (full : s ≠ "") : v.text? = some s := by
  simp only [Value.text?, Value.itemTexts?] at text
  cases hv : v.isNullish with
  | true =>
    rw [hv] at text
    cases text
    exact absurd rfl full
  | false =>
    rw [hv] at text
    cases ht : v.text? with
    | none =>
      rw [ht] at text
      cases text
    | some t =>
      rw [ht] at text
      cases text
      simp

theorem text_comma {v w : Value} {rest : List Value} {s : String}
    (text : (Value.array (v :: w :: rest)).text? = some s) : ',' ∈ s.toList := by
  simp only [Value.text?, Value.itemTexts?] at text
  split at text
  · next t ts _ others =>
    split at others
    · cases others
      cases text
      simp [String.intercalate_cons_cons]
    · cases others
  · cases text

theorem plain_of_helper {v : Value} {s : String} (text : v.text? = some s) (valid : isHelper s) :
    v.holdsBigint = false := by
  -- The induction is on nested arrays: one that reads as a helper name has a single item, because a
  -- comma stands between two, and the item reads the same.
  match v with
  | .bigint n =>
    cases text
    rw [not_isHelper_int] at valid
    cases valid
  | .object .bare _ => cases text
  | .object .ordinary fields =>
    simp only [Value.text?] at text
    split at text <;> cases text
    exact absurd valid (by decide)
  | .array [] =>
    cases text
    exact absurd valid (by decide)
  | .array [w] =>
    have plain := plain_of_helper (text_single text (isHelper_ne_empty valid)) valid
    simp [Value.holdsBigint, Value.anyHoldsBigint, plain]
  | .array (w :: x :: rest) => exact absurd (text_comma text) (isHelper_no_comma valid)
  | .undefined | .null | .bool _ | .number _ | .string _ | .symbol _ | .date _ => rfl

theorem requireAction_plain {view : String} {action : Value} {a : Unit}
    (h : requireAction view action = .ok a) : action.holdsBigint = false := by
  obtain ⟨text, read, h⟩ := bind_ok.mp h
  split at h
  · next valid => exact plain_of_helper (readText_ok.mp read) valid
  · obtain ⟨_, -, h⟩ := bind_ok.mp h
    cases h

theorem settleHelper_plain {c : Conventions} {view : String} {action given : Option Value}
    (plain : ∀ a, action = some a → a.holdsBigint = false) {helper : Observed Value}
    (h : settleHelper c view action given = .ok helper) : ∀ e ∈ helper.events, e.Plain := by
  intro e he
  cases given with
  | some given =>
    cases h
    cases he
  | none =>
    cases action with
    | none =>
      cases h
      cases he
    | some action =>
      rw [settleHelper, helperFor] at h
      split at h <;> cases h
      rw [List.mem_singleton.mp he]
      simp [Trace.Event.Plain, Trace.Event.data, Value.anyFieldHoldsBigint, Value.holdsBigint,
        plain action rfl]

theorem layout_view_text {o : GroupOptions} (typed : o.Typed) {own : Record Value}
    (grammatical : Grammatical own) {inferred : Layout} (text : inferred.view.IsText) :
    ((RouteOptions.merge o.fields own).layout.getD inferred).view.IsText := by
  cases hl : (RouteOptions.merge o.fields own).layout with
  | none => exact text
  | some l =>
    obtain ⟨view, _, rfl⟩ := merged_layout_texts typed grammatical hl
    exact ⟨view, rfl⟩

theorem described_plain {c : Conventions} (normal : c.Normal) {d : Draft} (hd : DraftSound d)
    {decl : Declaration} {built : Observed Descriptor}
    (h : describe c (.ofDraft d) decl = .ok built) : ∀ e ∈ built.events, e.Plain := by
  have action : ∀ a, decl.action = some a → a.holdsBigint = false := by
    intro a given
    rw [describe_eq, given] at h
    obtain ⟨_, -, h⟩ := bind_ok.mp h
    obtain ⟨_, -, h⟩ := bind_ok.mp h
    obtain ⟨_, checked, -⟩ := bind_ok.mp h
    exact requireAction_plain checked
  obtain ⟨dotted, own, helper, -, grammatical, settled, rfl⟩ := describe_ok h
  obtain ⟨name, hn, -⟩ := settleHelper_valid normal grammatical (qualify_dotted hd dotted) settled
  intro e he
  simp only [described, layoutBeside, List.mem_append, List.mem_singleton] at he
  rcases he with (he | rfl) | rfl
  · exact settleHelper_plain action settled e he
  · rfl
  · have inferred : (layoutBeside c d.name).value.view.IsText := ⟨_, rfl⟩
    have layout := text_plain (layout_view_text (inherited_typed hd) grammatical inferred)
    simp only [layoutBeside] at layout
    simp only [Trace.Event.Plain, Trace.Event.data, Value.anyFieldHoldsBigint, Host.ofDraft, layout,
      hn]
    cases ha : decl.action with
    | none => rfl
    | some a => simp [action a ha, Value.holdsBigint]

theorem added_plain {e : Entry} (h : IsHelperText e.helper) : e.event.Plain := by
  obtain ⟨s, hs, -⟩ := h
  rw [Entry.event, hs]
  rfl

theorem settleHelper_live {c : Conventions} {view : String} {action given : Option Value}
    {helper : Observed Value} (h : settleHelper c view action given = .ok helper) :
    ∀ e ∈ helper.events, e.topic = .live := by
  cases given with
  | some given =>
    cases h
    exact List.forall_mem_nil _
  | none =>
    cases action with
    | none =>
      cases h
      exact List.forall_mem_nil _
    | some action =>
      rw [settleHelper, helperFor] at h
      split at h <;> cases h
      exact List.forall_mem_singleton.mpr rfl

theorem described_live {c : Conventions} {d : Draft} {decl : Declaration}
    {built : Observed Descriptor} (h : describe c (.ofDraft d) decl = .ok built) :
    ∀ e ∈ built.events, e.topic = .live := by
  obtain ⟨-, own, helper, -, -, settled, rfl⟩ := describe_ok h
  intro e he
  simp only [described, layoutBeside, List.mem_append, List.mem_singleton] at he
  rcases he with (he | rfl) | rfl
  · exact settleHelper_live settled e he
  · rfl
  · rfl

/-- The descriptor of a statement and its route, before anything is noted or added. -/
def settle (c : Conventions) (d : Draft) (decl : Declaration) :
    Except Fault (Observed Descriptor × Entry) := do
  let built ← describe c (.ofDraft d) decl
  let e ← d.accept (built.value.registration c)
  return (built, e)

theorem settle_ok {c : Conventions} {d : Draft} {decl : Declaration} {built : Observed Descriptor}
    {e : Entry} (h : settle c d decl = .ok (built, e)) :
    describe c (.ofDraft d) decl = .ok built ∧
      d.accept (built.value.registration c) = .ok e := by
  obtain ⟨built, described, h⟩ := bind_ok.mp h
  obtain ⟨e, accepted, h⟩ := bind_ok.mp h
  cases h
  exact ⟨described, accepted⟩

end ViewRouting.Live

namespace ViewRouting.Session
open Router Live Drafting

/-- What a step makes of a draft: its result, the draft that it leaves, and the events that it
notes. -/
structure Course (α : Type) where
  result : Except Fault α
  left : Draft
  events : List Trace.Event

namespace Course
variable {α : Type}

/-- How a step that takes the course ends, with the journal that it has written. -/
def ending (course : Course α) (journal : Trace.Journal) : EStateM.Result Fault Workshop α :=
  match course.result with
  | .ok a => .ok a ⟨course.left, journal⟩
  | .error fault => .error fault ⟨course.left, journal⟩

end Course

section Rules
variable {α β ε : Type} {m : Drafting α} {f : α → Drafting β} {d : Draft} {course : Course α}

/-- The step takes the course beside whatever journal, and writes all its events. -/
def Takes (step : Drafting α) (d : Draft) (course : Course α) : Prop :=
  ∀ journal : Trace.Journal, ∃ noted, journal.noteAll course.events = (.ok (), noted) ∧
    step ⟨d, journal⟩ = course.ending noted

/-- The journal has no say in what the step does. -/
def Steady (step : Drafting α) (d : Draft) : Prop :=
  ∃ course, Takes step d course

theorem Takes.leftBy (h : Takes m d course) (journal : Trace.Journal) :
    leftBy m d journal = course.left := by
  obtain ⟨noted, -, ran⟩ := h journal
  rw [Session.leftBy, ran, Course.ending]
  cases course.result <;> rfl

theorem takes_pure (a : α) (d : Draft) : Takes (pure a) d ⟨.ok a, d, []⟩ :=
  fun journal => ⟨journal, rfl, rfl⟩

theorem takes_throw (fault : Fault) (d : Draft) :
    Takes (throw fault : Drafting α) d ⟨.error fault, d, []⟩ :=
  fun journal => ⟨journal, rfl, rfl⟩

theorem takes_draft (d : Draft) : Takes draft d ⟨.ok d, d, []⟩ :=
  fun journal => ⟨journal, rfl, rfl⟩

theorem takes_change (g : Draft → Draft) (d : Draft) : Takes (change g) d ⟨.ok (), g d, []⟩ :=
  fun journal => ⟨journal, rfl, rfl⟩

theorem takes_check (cause : ε → Fault) (e : Except ε α) (d : Draft) :
    Takes (check cause e) d ⟨e.mapError cause, d, []⟩ := by
  intro journal
  refine ⟨journal, rfl, ?_⟩
  cases e <;> rfl

theorem takes_requireOpen (d : Draft) :
    Takes requireOpen d
      ⟨if d.finished then .error (.router (.finished d.name)) else .ok (), d, []⟩ := by
  intro journal
  refine ⟨journal, rfl, ?_⟩
  rw [requireOpen_run]
  cases hf : d.finished <;> simp [Course.ending]

theorem takes_note {events : List Trace.Event} (plain : ∀ e ∈ events, e.Plain) (d : Draft) :
    Takes (note events) d ⟨.ok (), d, events⟩ := by
  intro journal
  obtain ⟨noted, written⟩ := Trace.noteAll_ok plain journal
  refine ⟨noted, written, ?_⟩
  simp only [note_run, written]
  rfl

theorem Takes.bind {a : α} {result : Except Fault β} {middle left : Draft}
    {events more : List Trace.Event} (first : Takes m d ⟨.ok a, middle, events⟩)
    (second : Takes (f a) middle ⟨result, left, more⟩) :
    Takes (m >>= f) d ⟨result, left, events ++ more⟩ := by
  intro journal
  obtain ⟨next, written, ran⟩ := first journal
  obtain ⟨noted, rest_written, rest⟩ := second next
  refine ⟨noted, (Trace.noteAll_append written more).trans rest_written, ?_⟩
  rw [bind_run, ran]
  exact rest

theorem Takes.bind_error {fault : Fault} {left : Draft} {events : List Trace.Event}
    (first : Takes m d ⟨.error fault, left, events⟩) :
    Takes (m >>= f) d ⟨.error fault, left, events⟩ := by
  intro journal
  obtain ⟨noted, written, ran⟩ := first journal
  refine ⟨noted, written, ?_⟩
  rw [bind_run, ran]
  rfl

theorem Takes.answer {result : Except Fault α} {left : Draft} {events : List Trace.Event}
    (h : Takes m d ⟨result, left, events⟩) (answer : α → β) :
    Takes (do return answer (← m)) d ⟨result.map answer, left, events⟩ := by
  cases result with
  | error fault => exact h.bind_error
  | ok a =>
    rw [← List.append_nil events]
    exact h.bind (takes_pure _ _)

theorem Takes.attempt (h : Takes m d course) :
    Takes (Drafting.attempt m) d ⟨.ok course.result, course.left, course.events⟩ := by
  intro journal
  obtain ⟨noted, written, ran⟩ := h journal
  refine ⟨noted, written, ?_⟩
  rw [Drafting.attempt, ran, Course.ending]
  cases course.result <;> rfl

theorem Takes.steady (h : Takes m d course) : Steady m d := ⟨course, h⟩

theorem Takes.seq (first : Takes m d course)
    (next : ∀ a, course.result = .ok a → Steady (f a) course.left) : Steady (m >>= f) d := by
  obtain ⟨result, left, events⟩ := course
  cases result with
  | error fault => exact first.bind_error.steady
  | ok a =>
    obtain ⟨⟨_, _, _⟩, rest⟩ := next a rfl
    exact (first.bind rest).steady

end Rules

/-! Operations. -/

section Operations
variable {c : Conventions} {d : Draft}

theorem steady_pure {α : Type} (a : α) (d : Draft) : Steady (pure a) d := (takes_pure a d).steady

theorem steady_throw {α : Type} (fault : Fault) (d : Draft) : Steady (throw fault : Drafting α) d :=
  (takes_throw fault d).steady

theorem pipeline_steady (name : String) (plugs : List Plug) (d : Draft) :
    Steady (pipeline name plugs) d := by
  apply (takes_requireOpen d).seq
  intro _ _
  apply (takes_draft d).seq
  rintro _ ⟨⟩
  split
  · exact (takes_throw _ d).bind_error.steady
  · exact (takes_change _ d).steady

theorem pipe_steady (names : List String) (d : Draft) : Steady (pipe names) d := by
  apply (takes_requireOpen d).seq
  intro _ _
  apply (takes_draft d).seq
  rintro _ ⟨⟩
  split
  · exact steady_throw _ d
  · exact (takes_change _ d).steady

theorem takes_finish (d : Draft) :
    Takes finish d
      (if d.finished then ⟨.error (.router (.finished d.name)), d, []⟩
        else ⟨.ok d.table, d.sealed, [d.table.event]⟩) := by
  have first := takes_requireOpen d
  cases finished : d.finished with
  | true =>
    rw [finished] at first
    exact first.bind_error
  | false =>
    rw [finished] at first
    have plain := List.forall_mem_singleton.mpr
      (Trace.tableBuilt_plain d.table.name d.table.routes.length)
    apply first.bind
    apply (takes_change _ d).bind
    apply (takes_draft d.sealed).bind
    apply (takes_note plain d.sealed).bind
    exact takes_pure _ _

theorem takes_accepted {r : Registration} {e : Entry} (accepted : d.accept r = .ok e)
    (helper : Naming.IsHelperText e.helper) :
    Takes (add r.verb r.path r.handler r.action r.options) d
      ⟨.ok e, { d with entries := d.entries ++ [e] }, [e.event]⟩ := by
  -- Of the options only the helper is shown in the message, so that the others may be any value.
  intro journal
  have plain := List.forall_mem_singleton.mpr (added_plain helper)
  obtain ⟨noted, written⟩ := Trace.noteAll_ok plain journal
  refine ⟨noted, written, ?_⟩
  rw [Entry.event] at written
  simp only [add_run, accepted, written]
  rfl

theorem takes_add (hd : DraftSound d) {r : Registration}
    (text : r.options.helper = .undefined ∨ r.options.helper.IsText) :
    Takes (add r.verb r.path r.handler r.action r.options) d
      (match d.accept r with
        | .error fault => ⟨.error fault, d, []⟩
        | .ok e => ⟨.ok e, { d with entries := d.entries ++ [e] }, [e.event]⟩) := by
  cases accepted : d.accept r with
  | ok e => exact takes_accepted accepted (accept_sound hd text accepted).helper
  | error fault =>
    intro journal
    refine ⟨journal, rfl, ?_⟩
    rw [add_run, accepted]
    rfl

theorem takes_addGiven_read {verb path handler action : String} {given : Value}
    {options : AddOptions} {course : Course Entry} (unfinished : d.finished = false)
    (valid : Path.requireRooted path = .ok ()) (asked : AddOptions.ofValue given = .ok options)
    (added : Takes (add verb path handler action options) d course) :
    Takes (addGiven verb path handler action given) d course := by
  have first := takes_requireOpen d
  have rooted := takes_check .router (Path.requireRooted path) d
  have read := takes_check id (AddOptions.ofValue given) d
  rw [unfinished] at first
  rw [valid] at rooted
  rw [asked] at read
  rw [addGiven, valid, asked]
  exact first.bind (rooted.bind (read.bind added))

theorem takes_addGiven (hd : DraftSound d) (verb path handler action : String) {given : Value}
    (typed : given.IsAddOptions) :
    (∃ fault, Takes (addGiven verb path handler action given) d ⟨.error fault, d, []⟩) ∨
      ∃ e, Takes (addGiven verb path handler action given) d
        ⟨.ok e, { d with entries := d.entries ++ [e] }, [e.event]⟩ := by
  have first := takes_requireOpen d
  have rooted := takes_check .router (Path.requireRooted path) d
  have read := takes_check id (AddOptions.ofValue given) d
  rcases Bool.eq_false_or_eq_true d.finished with finished | unfinished
  · rw [finished] at first
    exact .inl ⟨_, first.bind_error⟩
  rw [unfinished] at first
  cases valid : Path.requireRooted path with
  | error fault =>
    rw [valid] at rooted
    rw [addGiven, valid]
    exact .inl ⟨_, first.bind rooted.bind_error⟩
  | ok _ =>
    rw [valid] at rooted
    cases asked : AddOptions.ofValue given with
    | error fault =>
      rw [asked] at read
      rw [addGiven, valid, asked]
      exact .inl ⟨_, first.bind (rooted.bind read.bind_error)⟩
    | ok options =>
      have text := AddOptions.helper_ofValue typed asked
      have added := takes_add hd (r := ⟨verb, path, handler, action, options⟩) text
      have ran := takes_addGiven_read unfinished valid asked added
      cases accepted : d.accept ⟨verb, path, handler, action, options⟩ with
      | error fault =>
        rw [accepted] at ran
        exact .inl ⟨_, ran⟩
      | ok e =>
        rw [accepted] at ran
        exact .inr ⟨e, ran⟩

theorem takes_describeIn (normal : c.Normal) (hd : DraftSound d) (decl : Declaration) :
    Takes (describeIn c decl) d
      (match describe c (.ofDraft d) decl with
        | .error fault => ⟨.error fault, d, []⟩
        | .ok built => ⟨.ok built.value, d, built.events⟩) := by
  intro journal
  cases described : describe c (.ofDraft d) decl with
  | error fault =>
    refine ⟨journal, rfl, ?_⟩
    rw [describeIn_run, described]
    rfl
  | ok built =>
    obtain ⟨noted, written⟩ := Trace.noteAll_ok (described_plain normal hd described) journal
    refine ⟨noted, written, ?_⟩
    simp only [describeIn_run, described, written]
    rfl

theorem takes_register (normal : c.Normal) (hd : DraftSound d) (decl : Declaration) :
    ∃ live, (∀ e ∈ live, e.topic = .live) ∧ Takes (register c decl) d
      (match settle c d decl with
        | .error fault => ⟨.error fault, d, live⟩
        | .ok (built, e) =>
          ⟨.ok built.value, { d with entries := d.entries ++ [e] }, live ++ [e.event]⟩) := by
  have first := takes_describeIn normal hd decl
  rw [register, settle]
  cases described : describe c (.ofDraft d) decl with
  | error fault =>
    rw [described] at first
    exact ⟨[], List.forall_mem_nil _, first.bind_error⟩
  | ok built =>
    rw [described] at first
    have text := (registration_valid normal hd described).isText
    have added := takes_add hd (.inr text)
    refine ⟨built.events, described_live described, ?_⟩
    cases accepted : d.accept (built.value.registration c) with
    | error fault =>
      rw [accepted] at added
      simp only [bind, Except.bind, accepted]
      rw [← List.append_nil built.events]
      apply first.bind
      exact added.bind_error
    | ok e =>
      rw [accepted] at added
      simp only [bind, Except.bind, accepted]
      apply first.bind
      exact added.bind (takes_pure built.value _)

theorem perform_steady (hd : DraftSound d) {operation : Operation}
    (typed : operation.Typed) : Steady operation.perform d := by
  have answer {α : Type} {m : Drafting α} (outcome : α → Outcome) (h : Steady m d) :
      Steady (do return outcome (← m)) d := by
    obtain ⟨_, takes⟩ := h
    exact (takes.answer outcome).steady
  cases operation with
  | pipeline name plugs => exact answer (fun _ => .done) (pipeline_steady name plugs d)
  | pipe names => exact answer (fun _ => .done) (pipe_steady names d)
  | qualify reference => exact (takes_draft d).seq fun _ _ => steady_pure _ _
  | inherited => exact (takes_draft d).seq fun _ _ => steady_pure _ _
  | add verb path handler action given =>
    rcases takes_addGiven hd verb path handler action typed with ⟨_, refused⟩ | ⟨_, added⟩
    · exact answer .entry refused.steady
    · exact answer .entry added.steady
  | register c decl =>
    obtain ⟨_, -, registered⟩ := takes_register typed.normal hd decl
    exact answer .descriptor registered.steady
  | describe c decl => exact answer .descriptor (takes_describeIn typed.normal hd decl).steady
  | finish => exact answer .table (takes_finish d).steady
  | raise message => exact steady_throw _ d
  | ask query => exact (takes_draft d).seq fun _ _ => steady_pure _ _

end Operations

/-! Scopes and programs. -/

section Programs
variable {d : Draft}

def opening (d : Draft) (path : String) (options : Value) : Except Fault Frame :=
  if d.finished then .error (.router (.finished d.name)) else d.current.enter path options

theorem takes_enterScope (hd : DraftSound d) (path : String) {options : Value}
    (typed : options.IsScopeOptions) :
    Takes (enterScope path options) d
      (match opening d path options with
        | .error fault => ⟨.error fault, d, []⟩
        | .ok frame => ⟨.ok (), d.into frame, [frame.event]⟩) := by
  have first := takes_requireOpen d
  have asked := takes_check id (d.current.enter path options) d
  rw [opening]
  cases finished : d.finished with
  | true =>
    rw [finished] at first
    exact first.bind_error
  | false =>
    rw [finished] at first
    apply first.bind
    apply (takes_draft d).bind
    cases entered : d.current.enter path options with
    | error fault =>
      rw [entered] at asked
      exact asked.bind_error
    | ok frame =>
      rw [entered] at asked
      have current := hd.frames d.current (by simp [frames_eq])
      have plain : frame.stem.holdsBigint = false := by
        rcases (enter_sound current typed entered).stem with h | h
        · rw [h]
          rfl
        · exact text_plain h.isText
      have events := List.forall_mem_singleton.mpr
        (Trace.scopeEntered_plain frame.path frame.qualifier plain)
      apply asked.bind
      apply (takes_note events d).bind
      exact takes_change _ d

theorem Takes.sound_enter {path : String} {options : Value} {course : Course Unit}
    (hd : DraftSound d) (typed : options.IsScopeOptions)
    (entered : Takes (enterScope path options) d course) : DraftSound course.left := by
  let journal : Trace.Journal := ⟨.fresh none {} .epoch, []⟩
  have move := Move.enter (d := d) path journal typed
  rw [entered.leftBy] at move
  exact (move_sound hd move).1

theorem Takes.sound_run {step : Step} (typed : step.Typed)
    {course : Course Outcome} (hd : DraftSound d) (ran : Takes (total step.run) d course) :
    DraftSound course.left := by
  let journal : Trace.Journal := ⟨.fresh none {} .epoch, []⟩
  have reached := (run_reaches step typed ⟨d, journal⟩).1
  have left : (step.run ⟨d, journal⟩).2.draft = course.left := ran.leftBy journal
  rw [left] at reached
  exact (reaches_sound hd reached).1

theorem scope_steady {α : Type} (hd : DraftSound d) (path : String) {options : Value}
    (typed : options.IsScopeOptions) {m : Drafting α}
    (body : ∀ {inner}, DraftSound inner → Steady m inner) : Steady (scope path options m) d := by
  have entered := takes_enterScope hd path typed
  apply entered.seq
  intro _ _
  obtain ⟨inner, ran⟩ := body (entered.sound_enter hd typed)
  apply ran.attempt.seq
  intro result _
  apply (takes_change _ _).seq
  intro _ _
  exact (takes_check id result _).steady

mutual
theorem run_steady (step : Step) (typed : step.Typed) {d : Draft}
    (hd : DraftSound d) : Steady (total step.run) d := by
  rcases step with operation | ⟨path, options, propagate, body⟩
  · rw [Step.Typed] at typed
    rw [total_operation]
    obtain ⟨_, ran⟩ := perform_steady hd typed
    apply ran.attempt.seq
    intro result _
    cases result <;> exact steady_pure _ _
  · rw [Step.Typed] at typed
    rw [total_scope]
    obtain ⟨_, ran⟩ := scope_steady hd path typed.1 fun sound =>
      runBody_steady propagate body typed.2 sound
    apply ran.attempt.seq
    intro (result : Except Fault Report) _
    rcases result with fault | ⟨inner, _ | fault⟩ <;> exact steady_pure _ _

theorem runBody_steady (propagate : Bool) (steps : List Step) (typed : BodyTyped steps) {d : Draft}
    (hd : DraftSound d) :
    Steady (total (runBody propagate steps)) d := by
  rcases steps with _ | ⟨step, rest⟩
  · exact steady_pure (⟨[], none⟩ : Report) d
  · rw [BodyTyped] at typed
    rw [total_runBody_cons]
    obtain ⟨course, ran⟩ := run_steady step typed.1 hd
    have sound := ran.sound_run typed.1 hd
    apply ran.seq
    intro outcome _
    obtain ⟨_, others⟩ := runBody_steady propagate rest typed.2 sound
    have more := others.seq fun report _ =>
      steady_pure (⟨outcome :: report.outcomes, report.fault⟩ : Report) _
    split
    · exact steady_pure _ _
    · exact more
end

theorem steady_total {α : Type} {step : Workshop → α × Workshop} (h : Steady (total step) d) :
    ∃ a left events, ∀ journal : Trace.Journal, ∃ noted,
      journal.noteAll events = (.ok (), noted) ∧ step ⟨d, journal⟩ = (a, ⟨left, noted⟩) := by
  obtain ⟨⟨result, left, events⟩, takes⟩ := h
  cases result with
  | error fault =>
    obtain ⟨noted, -, ran⟩ := takes ⟨.fresh none {} .epoch, []⟩
    cases ran
  | ok a =>
    refine ⟨a, left, events, fun journal => ?_⟩
    obtain ⟨noted, written, ran⟩ := takes journal
    obtain ⟨same, left⟩ := EStateM.Result.ok.inj ran
    exact ⟨noted, written, Prod.ext same left⟩

theorem runProgram_steady {steps : List Step} (typed : BodyTyped steps) (hd : DraftSound d) :
    ∃ outcomes left events, ∀ journal : Trace.Journal, ∃ noted,
      journal.noteAll events = (.ok (), noted) ∧
        runProgram steps ⟨d, journal⟩ = (outcomes, ⟨left, noted⟩) := by
  have steady := runBody_steady false steps typed hd
  obtain ⟨report, left, events, ran⟩ := steady_total steady
  refine ⟨report.outcomes, left, events, fun journal => ?_⟩
  obtain ⟨noted, written, same⟩ := ran journal
  exact ⟨noted, written, by rw [runProgram, same]⟩

theorem define_steady (name : String) {options : RouterOptions}
    (optionsTyped : options.Typed) {steps : List Step} (typed : BodyTyped steps) :
    ∃ outcomes result events, ∀ journal : Trace.Journal, ∃ noted,
      journal.noteAll events = (.ok (), noted) ∧
        define name options steps journal = ⟨outcomes, result, noted⟩ := by
  cases started : Draft.start name options with
  | error fault =>
    refine ⟨[], .error (.router fault), [], fun journal => ⟨journal, rfl, ?_⟩⟩
    rw [define, started]
  | ok start =>
    obtain ⟨⟨outcomes, fault?⟩, left, events, ran⟩ := steady_total
      (runBody_steady true steps typed (start_sound optionsTyped started))
    cases fault? with
    | some fault =>
      refine ⟨outcomes, .error fault, events, fun journal => ?_⟩
      obtain ⟨noted, written, same⟩ := ran journal
      refine ⟨noted, written, ?_⟩
      simp only [define, started, same]
    | none =>
      obtain ⟨⟨result, last, more⟩, finished⟩ := (takes_finish left).steady
      refine ⟨outcomes, result, events ++ more, fun journal => ?_⟩
      obtain ⟨middle, written, same⟩ := ran journal
      obtain ⟨noted, moreWritten, taken⟩ := finished middle
      refine ⟨noted, (Trace.noteAll_append written more).trans moreWritten, ?_⟩
      simp only [define, started, same, taken, Course.ending]
      cases result <;> rfl

end Programs

/-- Whatever the trace is set to, and wherever it is written, a program has the same outcomes and
leaves the same draft, and a definition in one go comes to the same; the events on the way are the
same too, and every one of them is written. So no setting of the trace can be told from another one
by what is answered. -/
theorem tracing_transparent (name : String) {options : RouterOptions}
    (optionsTyped : options.Typed) {steps : List Step} (typed : BodyTyped steps) :
    (∀ start, Draft.start name options = .ok start →
      ∃ outcomes left events, ∀ journal : Trace.Journal, ∃ noted,
        journal.noteAll events = (.ok (), noted) ∧
          runProgram steps ⟨start, journal⟩ = (outcomes, ⟨left, noted⟩)) ∧
      (∃ outcomes result events, ∀ journal : Trace.Journal, ∃ noted,
        journal.noteAll events = (.ok (), noted) ∧
          define name options steps journal = ⟨outcomes, result, noted⟩) ∧
      ∀ (setting setting' : Option String) (style style' : Trace.Style) (clock clock' : Instant),
        let journal : Trace.Journal := ⟨.fresh setting style clock, []⟩
        let journal' : Trace.Journal := ⟨.fresh setting' style' clock', []⟩
        (∀ start, Draft.start name options = .ok start →
          let ran := runProgram steps ⟨start, journal⟩
          let ran' := runProgram steps ⟨start, journal'⟩
          ran.1 = ran'.1 ∧ ran.2.draft = ran'.2.draft) ∧
          let defined := define name options steps journal
          let defined' := define name options steps journal'
          defined.outcomes = defined'.outcomes ∧ defined.result = defined'.result := by
  have program (start : Draft) (started : Draft.start name options = .ok start) :=
    runProgram_steady typed (start_sound optionsTyped started)
  have definition := define_steady name optionsTyped typed
  refine ⟨program, definition, ?_⟩
  intro setting setting' style style' clock clock' journal journal'
  constructor
  · intro start started
    obtain ⟨outcomes, left, events, same⟩ := program start started
    obtain ⟨_, -, ran⟩ := same journal
    obtain ⟨_, -, ran'⟩ := same journal'
    simp only [ran, ran', and_self]
  · obtain ⟨outcomes, result, events, same⟩ := definition
    obtain ⟨_, -, ran⟩ := same journal
    obtain ⟨_, -, ran'⟩ := same journal'
    simp only [ran, ran', and_self]

theorem tracing_transparent_heard :
    ∃ steps : List Step, BodyTyped steps ∧
      let quiet : Trace.Journal := ⟨.fresh none {} .epoch, []⟩
      let heard : Trace.Journal := ⟨.fresh (some "*") ⟨.json, true⟩ .epoch, []⟩
      let ran := runProgram steps ⟨freshWorkshop.draft, quiet⟩
      let ran' := runProgram steps ⟨freshWorkshop.draft, heard⟩
      ran.1 = ran'.1 ∧ ran.2.journal.lines = [] ∧ ran'.2.journal.lines.length = 7 := by
  -- A program with a scope that gives neither a qualifier nor a stem, heard in full and not at all.
  let live : Declaration :=
    .ofArguments "/users" "UserLive.Index" (.string "index") .undefined
  let steps : List Step := [
    .scope "/admin" (.record []) false [
      .operation (.register {} live),
      .operation (.add "GET" "/log" "LogController" "index" .undefined)],
    .operation .finish]
  have typed : BodyTyped steps := by
    have scope : Value.IsScopeOptions (.record []) :=
      .inr ⟨.ordinary, [], rfl, .inl rfl, .inl rfl, .inl rfl, .inl rfl, .inl rfl⟩
    simp only [steps, BodyTyped, Step.Typed, Operation.Typed]
    exact ⟨⟨scope, Conventions.normalized_default, .inl rfl, trivial⟩, trivial, trivial⟩
  have started : Draft.start "App.Router" {} = .ok freshWorkshop.draft := if_pos (by decide)
  have same := (tracing_transparent "App.Router" ⟨"Controller", rfl⟩ typed).2.2
    none (some "*") {} ⟨.json, true⟩ .epoch .epoch
  refine ⟨steps, typed, (same.1 _ started).1, ?_, ?_⟩
  · have count : (runProgram steps
        ⟨freshWorkshop.draft, ⟨.fresh none {} .epoch, []⟩⟩).2.journal.lines.length = 0 := by
      simp only [steps, live]
      decide +kernel
    exact List.length_eq_zero_iff.mp count
  · simp only [steps, live]
    decide +kernel

end ViewRouting.Session
