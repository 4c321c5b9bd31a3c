import ViewRouting.Proofs.Bodies
import ViewRouting.Proofs.Notes
import ViewRouting.Proofs.Overlays

/-! Two runs that no step can tell apart. Somewhere in the stack of the first run two scopes stand
where the second one has a single scope, whose frame adds up to the same. What a step sees of the
stack is what its frames add up to, and so it answers the same in both runs, or fails the same, and
it leaves them alike. Scopes keep their bodies from leaving more than they have opened, so that the
place where the stacks differ stays where it is. -/

namespace ViewRouting.Router

/-- Two scopes on top of `below`, the outer one without pipelines and without a layout, are one
scope in the second stack; above them the stacks are the same. The innermost frame comes first. -/
inductive Fused (below : List Frame) : List Frame → List Frame → Prop
  | here (outer inner : Frame) (unpiped : outer.pipes = []) (bare : outer.group.layout = none) :
      Fused below (inner :: outer :: below)
        ({ inner with group := outer.group.overlay inner.group } :: below)
  | above (f : Frame) {stack stack' : List Frame} (rest : Fused below stack stack') :
      Fused below (f :: stack) (f :: stack')

theorem overlayOnto_overlay (pipelines : Pipelines) (o : GroupOptions) {g : GroupOptions}
    (bare : g.layout = none) (f : Frame) :
    f.overlayOnto pipelines (o.overlay g) =
      { f with group := g.overlay f.group }.overlayOnto pipelines o := by
  -- Options that hold no layout may be taken from the scopes around to the options of a frame: the
  -- pipelines of the frame, which come in between, put nothing but layouts.
  have plugs (ps : List Plug) :
      ps.foldl (fun o plug => o.overlay plug.group) (o.overlay g) =
        (ps.foldl (fun o plug => o.overlay plug.group) o).overlay g := by
    induction ps generalizing o with
    | nil => rfl
    | cons plug ps ih =>
      have swap : (o.overlay g).overlay plug.group = (o.overlay plug.group).overlay g := by
        cases plug <;> exact o.overlay_layout_comm bare rfl rfl
      rw [List.foldl_cons, List.foldl_cons, swap, ih]
  rw [Frame.overlayOnto, plugs, GroupOptions.overlay_assoc]
  rfl

namespace Fused
variable {below stack stack' : List Frame}

theorem pipes (h : Fused below stack stack') :
    stack'.reverse.flatMap Frame.pipes = stack.reverse.flatMap Frame.pipes := by
  induction h with
  | here outer inner unpiped => simp [unpiped]
  | above f _ ih => simp only [List.reverse_cons, List.flatMap_append, ih]

theorem inEffect (pipelines : Pipelines) (h : Fused below stack stack') :
    optionsInEffect pipelines stack'.reverse = optionsInEffect pipelines stack.reverse := by
  simp only [optionsInEffect]
  induction h with
  | here outer inner unpiped bare =>
    have own (o : GroupOptions) : outer.overlayOnto pipelines o = o.overlay outer.group := by
      simp [Frame.overlayOnto, Frame.plugs, unpiped]
    simp only [List.reverse_cons, List.foldl_append, List.foldl_cons, List.foldl_nil, own,
      overlayOnto_overlay pipelines _ bare]
  | above f _ ih => simp only [List.reverse_cons, List.foldl_append, ih]

theorem innermost {f f' : Frame} {rest rest' : List Frame}
    (h : Fused below (f :: rest) (f' :: rest')) : ∃ group, f' = { f with group := group } := by
  cases h with
  | here => exact ⟨_, rfl⟩
  | above => exact ⟨f.group, rfl⟩

end Fused

/-- Drafts that differ in their stacks at most, in the way that `Fused` says. -/
structure Draft.Alike (below : List Frame) (d d' : Draft) : Prop where
  stack : Fused below (d.current :: d.enclosing) (d'.current :: d'.enclosing)
  rest : d' = { d with current := d'.current, enclosing := d'.enclosing }

namespace Draft.Alike
variable {below : List Frame} {d d' : Draft}

theorem finished (h : Draft.Alike below d d') : d'.finished = d.finished := by rw [h.rest]

theorem name (h : Draft.Alike below d d') : d'.name = d.name := by rw [h.rest]

theorem pipelines (h : Draft.Alike below d d') : d'.pipelines = d.pipelines := by rw [h.rest]

theorem entries (h : Draft.Alike below d d') : d'.entries = d.entries := by rw [h.rest]

theorem table (h : Draft.Alike below d d') : d'.table = d.table := by
  rw [h.rest]
  rfl

theorem qualify (h : Draft.Alike below d d') : d'.qualify = d.qualify := by
  obtain ⟨group, current⟩ := h.stack.innermost
  funext reference
  rw [Draft.qualify, current]
  rfl

theorem pipes (h : Draft.Alike below d d') : d'.pipes = d.pipes :=
  h.stack.pipes

theorem inherited (h : Draft.Alike below d d') : d'.inherited = d.inherited := by
  rw [Draft.inherited, h.pipelines]
  exact h.stack.inEffect d.pipelines

theorem host (h : Draft.Alike below d d') : Live.Host.ofDraft d' = .ofDraft d := by
  rw [Live.Host.ofDraft, h.name, h.qualify, h.inherited]
  rfl

theorem accept (h : Draft.Alike below d d') (r : Live.Registration) :
    d'.accept r = d.accept r := by
  obtain ⟨group, current⟩ := h.stack.innermost
  have own : d'.ownHelper = d.ownHelper := by
    rw [h.rest]
    rfl
  have entry : d'.entry r = d.entry r := by
    funext helper
    rw [Draft.entry, h.qualify, h.pipes, current]
    rfl
  rw [Draft.accept, h.finished, h.name, own, entry, current]
  rfl

theorem piping (h : Draft.Alike below d d') (names : List String) :
    Draft.Alike below
      { d with current := { d.current with pipes := d.current.pipes ++ names } }
      { d' with current := { d'.current with pipes := d'.current.pipes ++ names } } where
  stack := by
    have stack := h.stack
    generalize d.current = f, d.enclosing = enclosing, d'.current = f', d'.enclosing = enclosing'
      at stack
    cases stack with
    | here outer inner unpiped bare => exact .here outer _ unpiped bare
    | above _ rest => exact .above _ rest
  rest := by
    conv_lhs => rw [h.rest]

theorem enter (h : Draft.Alike below d d') (path : String) (options : Value) :
    d'.current.enter path options = d.current.enter path options := by
  obtain ⟨group, current⟩ := h.stack.innermost
  rw [current]
  rfl

theorem into (h : Draft.Alike below d d') (frame : Frame) :
    Draft.Alike below (d.into frame) (d'.into frame) where
  stack := .above frame h.stack
  rest := by
    conv_lhs => rw [h.rest]
    rfl

end Draft.Alike

structure Workshop.Alike (below : List Frame) (w w' : Workshop) : Prop where
  draft : Draft.Alike below w.draft w'.draft
  board : w'.journal.board = w.journal.board

/-- Both results are the same answer or the same failure, and `left` holds of what they leave. -/
inductive Matches {α : Type} (left : Workshop → Workshop → Prop) :
    EStateM.Result Fault Workshop α → EStateM.Result Fault Workshop α → Prop
  | ok (a : α) {w w' : Workshop} (h : left w w') : Matches left (.ok a w) (.ok a w')
  | error (fault : Fault) {w w' : Workshop} (h : left w w') :
      Matches left (.error fault w) (.error fault w')

/-- Two computations that cannot be told apart in alike workshops. -/
def Parallel (below : List Frame) {α : Type} (m m' : Drafting α) : Prop :=
  ∀ w w' : Workshop, Workshop.Alike below w w' →
    Matches (Workshop.Alike below) (m w) (m' w')

namespace Parallel
variable {below : List Frame} {α β ε : Type}

protected theorem pure (a : α) : Parallel below (pure a) (pure a) :=
  fun _ _ h => .ok a h

protected theorem throw (fault : Fault) :
    Parallel below (throw fault : Drafting α) (throw fault) :=
  fun _ _ h => .error fault h

protected theorem bind {m m' : Drafting α} {f f' : α → Drafting β} (first : Parallel below m m')
    (next : ∀ a, Parallel below (f a) (f' a)) : Parallel below (m >>= f) (m' >>= f') := by
  intro w w' h
  have first := first w w' h
  rw [bind_run, bind_run]
  generalize m w = r, m' w' = r' at first
  cases first with
  | ok a h => exact next a _ _ h
  | error fault h => exact .error fault h

protected theorem attempt {m m' : Drafting α} (step : Parallel below m m') :
    Parallel below (Drafting.attempt m) (Drafting.attempt m') := by
  intro w w' h
  have step := step w w' h
  rw [Drafting.attempt, Drafting.attempt]
  generalize m w = r, m' w' = r' at step
  cases step with
  | ok a h => exact .ok (Except.ok a) h
  | error fault h => exact .ok (Except.error fault) h

theorem look {f f' : Draft → Drafting β}
    (next : ∀ d d', Draft.Alike below d d' → Parallel below (f d) (f' d')) :
    Parallel below (Drafting.draft >>= f) (Drafting.draft >>= f') :=
  fun w w' h => next w.draft w'.draft h.draft w w' h

theorem refuse (b : Bool) (fault : Fault) {f f' : Unit → Drafting β}
    (next : Parallel below (f ()) (f' ())) :
    Parallel below (if b then throw fault >>= f else f ())
      (if b then throw fault >>= f' else f' ()) := by
  cases b with
  | true => exact Parallel.throw fault
  | false => exact next

protected theorem check (cause : ε → Fault) (e : Except ε α) :
    Parallel below (Drafting.check cause e) (Drafting.check cause e) := by
  cases e with
  | ok a => exact Parallel.pure a
  | error e => exact Parallel.throw (cause e)

protected theorem note (events : List Trace.Event) :
    Parallel below (Drafting.note events) (Drafting.note events) := by
  intro w w' h
  have same := Trace.noteAll_same h.board events
  have board := Trace.noteAll_board w.journal events
  have board' := Trace.noteAll_board w'.journal events
  rw [Drafting.note_run, Drafting.note_run]
  generalize w.journal.noteAll events = noted, w'.journal.noteAll events = noted'
    at same board board'
  obtain ⟨result, journal⟩ := noted
  obtain ⟨result', journal'⟩ := noted'
  have alike : Workshop.Alike below ⟨w.draft, journal⟩ ⟨w'.draft, journal'⟩ :=
    ⟨h.draft, by rw [board', board, h.board]⟩
  cases same
  cases result with
  | ok _ => exact .ok () alike
  | error fault => exact .error fault alike

theorem change {f f' : Draft → Draft}
    (same : ∀ d d', Draft.Alike below d d' → Draft.Alike below (f d) (f' d')) :
    Parallel below (Drafting.change f) (Drafting.change f') :=
  fun _ _ h => .ok () ⟨same _ _ h.draft, h.board⟩

protected theorem requireOpen : Parallel below Drafting.requireOpen Drafting.requireOpen := by
  apply look
  intro d d' h
  rw [h.finished, h.name]
  cases d.finished
  · exact Parallel.pure ()
  · exact Parallel.throw _

/-! Operations. -/

protected theorem pipeline (name : String) (plugs : List Plug) :
    Parallel below (Drafting.pipeline name plugs) (Drafting.pipeline name plugs) := by
  apply Parallel.requireOpen.bind
  intro _
  apply look
  intro d d' h
  rw [h.pipelines]
  apply refuse
  apply change
  intro d d' h
  exact ⟨h.stack, by conv_lhs => rw [h.rest]⟩

protected theorem pipe (names : List String) :
    Parallel below (Drafting.pipe names) (Drafting.pipe names) := by
  apply Parallel.requireOpen.bind
  intro _
  apply look
  intro d d' h
  rw [h.pipelines]
  cases names.find? fun name => (d.pipelines.lookup name).isNone with
  | some name => exact Parallel.throw _
  | none => exact change fun d d' h => h.piping names

theorem add_eq (r : Live.Registration) :
    Drafting.add r.verb r.path r.handler r.action r.options = (do
      let d ← Drafting.draft
      let e ← Drafting.check id (d.accept r)
      Drafting.note [.routeAdded e.verb e.path e.handler e.action e.helper]
      Drafting.change fun d => { d with entries := d.entries ++ [e] }
      return e) := by
  -- A route is accepted or refused at once, and nothing of the stack is looked at afterwards.
  funext w
  rw [Drafting.add_run, bind_run, Drafting.draft_run]
  simp only [bind_run, Drafting.check_run]
  cases w.draft.accept r with
  | error fault => rfl
  | ok e =>
    simp only [Drafting.note_run]
    rcases w.journal.noteAll _ with ⟨_ | _, journal⟩ <;> rfl

protected theorem add (r : Live.Registration) :
    Parallel below (Drafting.add r.verb r.path r.handler r.action r.options)
      (Drafting.add r.verb r.path r.handler r.action r.options) := by
  rw [add_eq]
  apply look
  intro d d' h
  rw [h.accept]
  apply (Parallel.check _ _).bind
  intro e
  apply (Parallel.note _).bind
  intro _
  apply Parallel.bind
  · apply change
    intro d d' h
    exact ⟨h.stack, by conv_lhs => rw [h.rest]⟩
  · intro _
    exact Parallel.pure e

protected theorem addGiven (verb path handler action : String) (options : Value) :
    Parallel below (Drafting.addGiven verb path handler action options)
      (Drafting.addGiven verb path handler action options) := by
  apply Parallel.requireOpen.bind
  intro _
  apply (Parallel.check _ _).bind
  intro _
  apply (Parallel.check _ _).bind
  intro options
  exact Parallel.add ⟨verb, path, handler, action, options⟩

protected theorem describe (c : Live.Conventions) (d : Live.Declaration) :
    Parallel below (Live.describeIn c d) (Live.describeIn c d) := by
  apply look
  intro _ _ h
  rw [h.host]
  apply (Parallel.check _ _).bind
  intro built
  apply (Parallel.note _).bind
  intro _
  exact Parallel.pure _

protected theorem register (c : Live.Conventions) (d : Live.Declaration) :
    Parallel below (Live.register c d) (Live.register c d) := by
  apply (Parallel.describe c d).bind
  intro descriptor
  apply (Parallel.add (descriptor.registration c)).bind
  intro _
  exact Parallel.pure descriptor

protected theorem finish : Parallel below Drafting.finish Drafting.finish := by
  apply Parallel.requireOpen.bind
  intro _
  apply Parallel.bind
  · apply change
    intro d d' h
    exact ⟨h.stack, by conv_lhs => rw [h.rest]⟩
  · intro _
    apply look
    intro d d' h
    rw [h.table, h.name, h.entries]
    apply (Parallel.note _).bind
    intro _
    exact Parallel.pure _

protected theorem perform (operation : Session.Operation) :
    Parallel below operation.perform operation.perform := by
  cases operation with
  | pipeline name plugs => exact (Parallel.pipeline name plugs).bind fun _ => Parallel.pure _
  | pipe names => exact (Parallel.pipe names).bind fun _ => Parallel.pure _
  | qualify reference =>
    apply look
    intro d d' h
    rw [h.qualify]
    exact Parallel.pure _
  | inherited =>
    apply look
    intro d d' h
    rw [h.inherited]
    exact Parallel.pure _
  | add verb path handler action options =>
    exact (Parallel.addGiven verb path handler action options).bind fun _ => Parallel.pure _
  | register c declaration => exact (Parallel.register c declaration).bind fun _ => Parallel.pure _
  | describe c declaration => exact (Parallel.describe c declaration).bind fun _ => Parallel.pure _
  | finish => exact Parallel.finish.bind fun _ => Parallel.pure _
  | raise message => exact Parallel.throw _
  | ask query =>
    apply look
    intro d d' h
    rw [h.table]
    exact Parallel.pure _

protected theorem enterScope (path : String) (options : Value) :
    Parallel below (Drafting.enterScope path options) (Drafting.enterScope path options) := by
  apply Parallel.requireOpen.bind
  intro _
  apply look
  intro d d' h
  rw [h.enter]
  apply (Parallel.check _ _).bind
  intro frame
  apply (Parallel.note _).bind
  intro _
  exact change fun d d' h => h.into frame

end Parallel

end ViewRouting.Router

namespace ViewRouting.Session
open Router

def backOn (d : Draft) (ended : Workshop) : Workshop :=
  { ended with draft := { d with
      pipelines := ended.draft.pipelines
      entries := ended.draft.entries
      finished := ended.draft.finished } }

theorem backOn_alike {below : List Frame} {ended ended' : Workshop}
    (same : Workshop.Alike below ended ended') (d : Draft) :
    (backOn d ended).draft = (backOn d ended').draft := by
  simp only [backOn, same.draft.pipelines, same.draft.entries, same.draft.finished]

theorem scope_opened {path : String} {options : Value} {w inner : Workshop}
    (opened : Drafting.enterScope path options w = .ok () inner) {α : Type} {m : Drafting α}
    (body : Body m) :
    Drafting.scope path options m w =
      match m inner with
      | .ok a ended => .ok a (backOn w.draft ended)
      | .error fault ended => .error fault (backOn w.draft ended) := by
  obtain ⟨-, frame, entered⟩ := Drafting.enterScope_ok opened
  have grown : Grown (w.draft.into frame) (leftBy m inner.draft inner.journal) := by
    rw [← entered]
    exact body.lasting grown_lasting inner
  rw [leftBy] at grown
  rw [Drafting.scope_run, opened]
  simp only
  cases h : m inner with
  | ok a ended =>
    rw [h] at grown
    simp only [backOn, grown.leave_eq]
  | error fault ended =>
    rw [h] at grown
    simp only [backOn, grown.leave_eq]

theorem alike_backOn {below : List Frame} {d d' : Draft} (h : Draft.Alike below d d')
    {ended ended' : Workshop} (same : Workshop.Alike below ended ended') :
    Workshop.Alike below (backOn d ended) (backOn d' ended') where
  board := same.board
  draft := by
    refine ⟨h.stack, ?_⟩
    simp only [backOn, same.draft.pipelines, same.draft.entries, same.draft.finished]
    conv_lhs => rw [h.rest]

theorem Body.parallel {α : Type} {m : Drafting α} (body : Body m) (below : List Frame) :
    Parallel below m m := by
  induction body with
  | pure a => exact Parallel.pure a
  | throw fault => exact Parallel.throw fault
  | bind _ _ first next => exact first.bind next
  | attempt _ step => exact step.attempt
  | operate operation => exact Parallel.perform operation
  | @scope _ m path options body ih =>
    intro w w' h
    have entered := Parallel.enterScope path options w w' h
    generalize opened : Drafting.enterScope path options w = r,
      opened' : Drafting.enterScope path options w' = r' at entered
    cases entered with
    | error fault h =>
      rw [Drafting.scope_run, Drafting.scope_run, opened, opened']
      exact .error fault h
    | @ok _ inner inner' inside =>
      have ran := ih inner inner' inside
      rw [scope_opened opened body, scope_opened opened' body]
      generalize m inner = r, m inner' = r' at ran
      cases ran with
      | ok a ended => exact .ok a (alike_backOn h.draft ended)
      | error fault ended => exact .error fault (alike_backOn h.draft ended)

end ViewRouting.Session
