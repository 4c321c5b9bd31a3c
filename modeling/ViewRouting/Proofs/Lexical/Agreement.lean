import ViewRouting.Proofs.Drafting
import ViewRouting.Proofs.Lexical.Reading

/-! The draft and the text say the same. A program that is run on a draft, with its stack of frames,
has the outcomes, the routes and the messages that reading the program by its text gives: what a
route gets from its surroundings depends on the scopes that it stands in and on nothing else,
however the steps before it ended. -/

namespace ViewRouting.Lexical
open Router Live Session

def Site.draft (h : Heading) (s : Site) (l : Ledger) : Draft where
  name := h.name
  handlerSuffix := h.handlerSuffix
  pipelines := l.pipelines
  current := s.frame
  enclosing := Site.framesAround s.around
  entries := l.entries
  finished := l.finished

def Site.workshop (h : Heading) (s : Site) (l : Ledger) : Workshop :=
  ⟨s.draft h l, l.journal⟩

theorem draft_piping (h : Heading) (s : Site) (l : Ledger) (names : List String) :
    (s.piping names).draft h l =
      { s.draft h l with current := { s.frame with pipes := s.frame.pipes ++ names } } := by
  rw [Site.draft, Site.piping_frame]
  rfl

theorem draft_pipes (h : Heading) (s : Site) (l : Ledger) : (s.draft h l).pipes = s.pipes := by
  have around := Site.framesAround_pipes (s.here :: s.around)
  rw [Draft.pipes, Draft.frames, Site.pipes, Site.openings, List.flatMap_def, List.flatMap_def,
    List.map_reverse, List.map_reverse, ← around]
  rfl

theorem draft_inherited (h : Heading) (s : Site) (l : Ledger) :
    (s.draft h l).inherited = s.inherited l.pipelines :=
  Site.optionsInEffect_framesAround l.pipelines (s.here :: s.around)

theorem ofDraft_draft {s : Site} (formed : s.Formed) (h : Heading) (l : Ledger) :
    Host.ofDraft (s.draft h l) = Reading.host h s l.pipelines := by
  have qualify : (s.draft h l).qualify = s.qualify := funext (Site.frame_qualify formed)
  rw [Host.ofDraft, qualify, draft_inherited]
  rfl

/-- A drafting step does at a site what a reading says, and goes on at `s'` unless it fails. -/
def Agrees {α : Type} (h : Heading) (s s' : Site) (drafting : Drafting α) (reading : Reading α) :
    Prop :=
  ∀ l, drafting (s.workshop h l) =
    match reading l with
    | .ok a l => .ok a (s'.workshop h l)
    | .error fault l => .error fault (s.workshop h l)

namespace Agrees

variable {α β : Type} {h : Heading} {s s' : Site}

protected theorem pure (a : α) : Agrees h s s (pure a) (pure a) := fun _ => rfl

protected theorem throw (fault : Fault) :
    Agrees h s s' (throw fault : Drafting α) (throw fault) := fun _ => rfl

protected theorem bind {m : Drafting α} {r : Reading α} {f : α → Drafting β} {g : α → Reading β}
    (first : Agrees h s s m r) (next : ∀ a, Agrees h s s' (f a) (g a)) :
    Agrees h s s' (m >>= f) (r >>= g) := by
  intro l
  simp only [Bind.bind, EStateM.bind, first l]
  cases r l with
  | ok a l => exact next a l
  | error fault l => rfl

theorem bind_pure {m : Drafting α} {r : Reading α} (first : Agrees h s s' m r) (f : α → β) :
    Agrees h s s' (do return f (← m)) (do return f (← r)) := by
  -- The last part of a step may move on to another site.
  intro l
  simp only [Bind.bind, EStateM.bind, first l]
  cases r l <;> rfl

theorem look {f : Draft → Drafting β} {g : Ledger → Reading β}
    (next : ∀ l, Agrees h s s' (f (s.draft h l)) (g l)) :
    Agrees h s s' (Drafting.draft >>= f) (get >>= g) :=
  fun l => next l l

theorem look_aside {f : Draft → Drafting β} {r : Reading β}
    (next : ∀ l, Agrees h s s' (f (s.draft h l)) r) : Agrees h s s' (Drafting.draft >>= f) r :=
  fun l => next l l

theorem refuse (b : Bool) (fault : Fault) {f : Unit → Drafting β} {g : Unit → Reading β}
    (next : Agrees h s s' (f ()) (g ())) :
    Agrees h s s' (if b then throw fault >>= f else f ())
      (if b then throw fault >>= g else g ()) := by
  cases b with
  | true => exact fun _ => rfl
  | false => exact next

protected theorem check {ε : Type} (cause : ε → Fault) (e : Except ε α) :
    Agrees h s s (Drafting.check cause e) (Reading.check cause e) := by
  cases e <;> exact fun _ => rfl

protected theorem note (events : List Trace.Event) :
    Agrees h s s (Drafting.note events) (Reading.note events) := by
  intro l
  have journal : (s.workshop h l).journal = l.journal := rfl
  rw [Drafting.note_run, Reading.note_run, journal]
  rcases l.journal.noteAll events with ⟨_ | _, journal⟩ <;> rfl

theorem change {f : Draft → Draft} {g : Ledger → Ledger}
    (same : ∀ l, f (s.draft h l) = s'.draft h (g l) ∧ (g l).journal = l.journal) :
    Agrees h s s' (Drafting.change f) (modify g) := by
  intro l
  show EStateM.Result.ok () ⟨f (s.draft h l), l.journal⟩ = .ok () (s'.workshop h (g l))
  rw [Site.workshop, ← (same l).1, (same l).2]

protected theorem requireOpen : Agrees h s s Drafting.requireOpen (Reading.requireOpen h) := by
  apply look
  intro l
  show Agrees h s s (if l.finished then _ else _) _
  cases l.finished
  · exact Agrees.pure ()
  · exact Agrees.throw _

protected theorem pipeline (name : String) (plugs : List Plug) :
    Agrees h s s (Drafting.pipeline name plugs) (Reading.pipeline h name plugs) := by
  apply Agrees.requireOpen.bind
  intro _
  apply look
  intro l
  apply refuse
  apply change
  exact fun l => ⟨rfl, rfl⟩

protected theorem pipe (names : List String) :
    Agrees h s (s.piping names) (Drafting.pipe names) (Reading.requireKnown h names) := by
  apply Agrees.requireOpen.bind
  intro _
  apply look
  intro l
  have pipelines : (s.draft h l).pipelines = l.pipelines := rfl
  rw [pipelines]
  cases names.find? fun name => (l.pipelines.lookup name).isNone with
  | some name => exact Agrees.throw _
  | none =>
    intro l
    show EStateM.Result.ok () _ = .ok () (Workshop.mk ((s.piping names).draft h l) l.journal)
    rw [draft_piping]
    rfl

protected theorem add (formed : s.Formed) (verb path handler action : String)
    (options : AddOptions) :
    Agrees h s s (Drafting.add verb path handler action options)
      (Reading.add h s verb path handler action options) := by
  apply Agrees.requireOpen.bind
  intro _
  apply (Agrees.check _ _).bind
  intro _
  apply look_aside
  intro l
  apply (Agrees.check _ _).bind
  intro own
  have stem : (s.draft h l).current.stem = s.frame.stem := rfl
  rw [stem, Site.helperUnder_frame]
  cases hr : readHelper own with
  | error fault => exact fun l => rfl
  | ok text =>
    have path : Path.join (s.draft h l).current.path path = s.path path := s.frame_path path
    have qualify : (s.draft h l).qualify handler = s.qualify handler :=
      s.frame_qualify formed handler
    simp only [Except.map, Drafting.check, Reading.check, pure_bind, path, qualify, draft_pipes,
      Reading.entry]
    apply (Agrees.note _).bind
    intro _
    apply Agrees.bind
    · apply change
      exact fun l => ⟨rfl, rfl⟩
    · intro _
      exact Agrees.pure _

protected theorem addGiven (formed : s.Formed) (verb path handler action : String)
    (options : Value) :
    Agrees h s s (Drafting.addGiven verb path handler action options)
      (Reading.addGiven h s verb path handler action options) := by
  apply Agrees.requireOpen.bind
  intro _
  apply (Agrees.check _ _).bind
  intro _
  apply (Agrees.check _ _).bind
  intro options
  exact Agrees.add formed verb path handler action options

protected theorem describe (formed : s.Formed) (c : Conventions) (d : Declaration) :
    Agrees h s s (describeIn c d) (Reading.describe h s c d) := by
  apply look
  intro l
  rw [ofDraft_draft formed]
  apply (Agrees.check _ _).bind
  intro built
  apply (Agrees.note _).bind
  intro _
  exact Agrees.pure _

protected theorem register (formed : s.Formed) (c : Conventions) (d : Declaration) :
    Agrees h s s (Live.register c d) (Reading.register h s c d) := by
  apply (Agrees.describe formed c d).bind
  intro descriptor
  apply (Agrees.add formed _ _ _ _ _).bind
  intro _
  exact Agrees.pure _

protected theorem finish : Agrees h s s Drafting.finish (Reading.finish h) := by
  apply Agrees.requireOpen.bind
  intro _
  apply Agrees.bind
  · apply change
    exact fun l => ⟨rfl, rfl⟩
  · intro _
    apply look
    intro l
    apply (Agrees.note _).bind
    intro _
    exact Agrees.pure _

theorem stay {m : Drafting α} {r : Reading α} (same : Agrees h s s m r) :
    Agrees h s (s.piping []) m r := by
  rwa [Site.piping_nil]

protected theorem perform (formed : s.Formed) (operation : Operation) :
    Agrees h s (s.piping (piped operation)) operation.perform (Reading.perform h s operation) := by
  cases operation with
  | pipe names => exact (Agrees.pipe names).bind_pure fun _ => Outcome.done
  | pipeline name plugs =>
    exact stay ((Agrees.pipeline name plugs).bind_pure fun _ => Outcome.done)
  | qualify reference =>
    apply stay
    apply look_aside
    intro l
    have qualify : (s.draft h l).qualify reference = s.qualify reference :=
      s.frame_qualify formed reference
    rw [qualify]
    exact Agrees.pure _
  | inherited =>
    apply stay
    apply look
    intro l
    rw [draft_inherited]
    exact Agrees.pure _
  | add verb path handler action options =>
    exact stay ((Agrees.addGiven formed verb path handler action options).bind_pure Outcome.entry)
  | register c d => exact stay ((Agrees.register formed c d).bind_pure Outcome.descriptor)
  | describe c d => exact stay ((Agrees.describe formed c d).bind_pure Outcome.descriptor)
  | finish => exact stay (Agrees.finish.bind_pure Outcome.table)
  | raise message => exact stay (Agrees.throw _)
  | ask query =>
    apply stay
    apply look
    intro l
    exact Agrees.pure _

end Agrees

/-! Scopes. -/

theorem enterScope_workshop (h : Heading) (s : Site) (path : String) (options : Value)
    (l : Ledger) :
    Drafting.enterScope path options (s.workshop h l) =
      match Reading.openScope h s path options l with
      | .ok o l => .ok () ((s.within o).workshop h l)
      | .error fault l => .error fault (s.workshop h l) := by
  rw [Drafting.enterScope, bind_run, Agrees.requireOpen l, Reading.openScope, bind_run]
  cases Reading.requireOpen h l with
  | error fault l => rfl
  | ok _ l =>
    have enter : (s.draft h l).current.enter path options = _ := s.enter_frame path options
    simp only [bind_run, Drafting.draft_run, Drafting.check_run, Reading.check_run, Site.workshop,
      enter]
    cases Opening.read path options with
    | error fault => rfl
    | ok o =>
      have event : Trace.Event.scopeEntered (s.within o).frame.path (s.within o).frame.qualifier
          (s.within o).frame.stem =
        .scopeEntered ((s.within o).path "/") (s.within o).qualifier (s.within o).stem := rfl
      simp only [Except.map, Drafting.note_run, Reading.note_run, event]
      rcases l.journal.noteAll _ with ⟨_ | _, journal⟩ <;> rfl

theorem read_of_openScope {h : Heading} {s : Site} {path : String} {options : Value}
    {o : Opening} {l l' : Ledger} (opened : Reading.openScope h s path options l = .ok o l') :
    Opening.read path options = .ok o := by
  rw [Reading.openScope, bind_run] at opened
  cases hr : Reading.requireOpen h l with
  | error fault l => simp [hr] at opened
  | ok _ l =>
    simp only [hr, bind_run, Reading.check_run] at opened
    cases ho : Opening.read path options with
    | error fault => simp [ho] at opened
    | ok o =>
      simp only [ho] at opened
      split at opened <;> cases opened
      rfl

theorem formed_within {s : Site} (formed : s.Formed) {path : String} {options : Value}
    {o : Opening} (read : Opening.read path options = .ok o) : (s.within o).Formed := by
  intro i hi q hq
  rw [Site.openings_within, List.mem_append, List.mem_singleton] at hi
  rcases hi with hi | rfl
  · exact formed i hi q hq
  · simp only [Opening.read, bind_ok] at read
    obtain ⟨_, -, options, -, qualifier, hr, _, -, read⟩ := read
    cases read
    cases hq
    exact (readQualifier_ok.mp hr).2

theorem readStep_site (h : Heading) (s : Site) (step : Step) (l : Ledger) :
    ∃ names, (readStep h s step l).2.1 = s.piping names := by
  cases step with
  | operation operation =>
    rw [readStep]
    cases Reading.perform h s operation l with
    | ok outcome l => exact ⟨piped operation, rfl⟩
    | error fault l => exact ⟨[], s.piping_nil.symm⟩
  | scope path options propagate body =>
    refine ⟨[], ?_⟩
    rw [readStep, s.piping_nil]
    cases Reading.openScope h s path options l with
    | error fault l => rfl
    | ok o l =>
      simp only
      split <;> rfl

mutual
theorem run_readStep (h : Heading) (step : Step) {s : Site} (formed : s.Formed) (l : Ledger) :
    step.run (s.workshop h l) =
      ((readStep h s step l).1,
        (readStep h s step l).2.1.workshop h (readStep h s step l).2.2) := by
  cases step with
  | operation operation =>
    rw [Step.run, recorded, Agrees.perform formed operation l, readStep]
    cases Reading.perform h s operation l <;> rfl
  | scope path options propagate body =>
    rw [Step.run, Drafting.scope_run, enterScope_workshop, readStep]
    cases ho : Reading.openScope h s path options l with
    | error fault l => rfl
    | ok o l =>
      have inner := formed_within formed (read_of_openScope ho)
      obtain ⟨names, hb⟩ := run_readBody h propagate body inner l
      simp only [Drafting.total, hb]
      rcases readBody h propagate (s.within o) body l with ⟨⟨outcomes, _ | fault⟩, l⟩ <;> rfl

theorem run_readBody (h : Heading) (propagate : Bool) (steps : List Step) {s : Site}
    (formed : s.Formed) (l : Ledger) :
    ∃ names, runBody propagate steps (s.workshop h l) =
      ((readBody h propagate s steps l).1,
        (s.piping names).workshop h (readBody h propagate s steps l).2) := by
  cases steps with
  | nil => exact ⟨[], by rw [runBody, readBody, s.piping_nil]⟩
  | cons step rest =>
    obtain ⟨names, site⟩ := readStep_site h s step l
    have first := run_readStep h step formed l
    have next := run_readBody h propagate rest (formed.piping names) (readStep h s step l).2.2
    obtain ⟨more, next⟩ := next
    rw [site] at first
    simp only [runBody, readBody, first, site, next]
    cases propagate with
    | false => exact ⟨names ++ more, by rw [s.piping_append]⟩
    | true =>
      cases (readStep h s step l).1.fault? with
      | none => exact ⟨names ++ more, by rw [s.piping_append]⟩
      | some fault => exact ⟨names, rfl⟩
end

theorem Site.root_formed : Site.root.Formed := by
  intro o ho q hq
  simp only [openings, root, List.reverse_singleton, List.mem_singleton] at ho
  rw [ho] at hq
  cases hq

theorem Site.workshop_root (h : Heading) (journal : Trace.Journal) :
    Site.root.workshop h { journal } =
      ⟨{ name := h.name, handlerSuffix := h.handlerSuffix }, journal⟩ := by
  rw [Site.workshop, Site.draft, Site.frame_root]
  rfl

end ViewRouting.Lexical
