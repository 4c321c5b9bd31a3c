import ViewRouting.Proofs.Histories
import ViewRouting.Proofs.Invariant

/-! Pipelines declared ahead. A program in which nothing fails may declare all its pipelines before
anything else, and it answers the same. Pipelines are looked up late, again and again, wherever the
options in effect are asked for; but every name that is piped through was declared before, so that
the pipelines which are still to come are never found. -/

namespace ViewRouting.Router

/-- What is piped through is declared. -/
def Draft.Backed (d : Draft) : Prop :=
  ∀ name ∈ d.pipes, Declared d.pipelines name

theorem Draft.pipes_eq (d : Draft) :
    d.pipes = d.enclosing.reverse.flatMap Frame.pipes ++ d.current.pipes := by
  simp [pipes, frames]

def Draft.ahead (d : Draft) (later : Pipelines) : Draft :=
  { d with pipelines := d.pipelines ++ later }

def Workshop.ahead (w : Workshop) (later : Pipelines) : Workshop :=
  { w with draft := w.draft.ahead later }

theorem Workshop.ahead_nil (w : Workshop) : w.ahead [] = w := by
  rw [ahead, Draft.ahead, List.append_nil]

theorem Workshop.ahead_ahead (w : Workshop) (first next : Pipelines) :
    (w.ahead first).ahead next = w.ahead (first ++ next) := by
  simp only [ahead, Draft.ahead, List.append_assoc]

def Admits (pipelines : Pipelines) : Pipelines → Prop
  | [] => True
  | (name, plugs) :: rest =>
    pipelines.lookup name = none ∧ Admits (pipelines ++ [(name, plugs)]) rest

theorem admits_append {pipelines first next : Pipelines} :
    Admits pipelines (first ++ next) ↔
      Admits pipelines first ∧ Admits (pipelines ++ first) next := by
  induction first generalizing pipelines with
  | nil => simp [Admits]
  | cons p first ih =>
    obtain ⟨name, plugs⟩ := p
    simp only [List.cons_append, Admits, ih, and_assoc, List.append_assoc, List.nil_append]

theorem lookup_ahead {pipelines : Pipelines} {name : String} (h : Declared pipelines name)
    (later : Pipelines) : (pipelines ++ later).lookup name = pipelines.lookup name := by
  obtain ⟨plugs, found⟩ := Option.isSome_iff_exists.mp h
  rw [List.lookup_append, found]
  rfl

theorem Draft.inherited_ahead {d : Draft} (backed : d.Backed) (later : Pipelines) :
    (d.ahead later).inherited = d.inherited := by
  have plugs (f : Frame) (hf : f ∈ d.frames) :
      f.plugs (d.pipelines ++ later) = f.plugs d.pipelines := by
    rw [Frame.plugs, Frame.plugs]
    apply List.flatMap_congr
    intro name hn
    rw [lookup_ahead (backed name (mem_pipes.mpr ⟨f, hf, hn⟩))]
  show optionsInEffect (d.pipelines ++ later) d.frames = optionsInEffect d.pipelines d.frames
  rw [optionsInEffect, optionsInEffect]
  apply List.foldl_ext
  intro o f hf
  rw [Frame.overlayOnto, Frame.overlayOnto, plugs f hf]

theorem Draft.leave_ahead (d : Draft) (later : Pipelines) :
    (d.ahead later).leave = d.leave.ahead later := by
  rcases d with ⟨_, _, _, _, _ | _, _, _⟩ <;> rfl

theorem enter_pipes {outer frame : Frame} {path : String} {options : Value}
    (h : outer.enter path options = .ok frame) : frame.pipes = [] := by
  obtain ⟨_, -, h⟩ := bind_ok.mp h
  obtain ⟨_, -, h⟩ := bind_ok.mp h
  obtain ⟨_, -, h⟩ := bind_ok.mp h
  obtain ⟨_, -, h⟩ := bind_ok.mp h
  cases h
  rfl

theorem into_backed {d : Draft} (backed : d.Backed) {frame : Frame} (bare : frame.pipes = []) :
    (d.into frame).Backed := by
  intro name hn
  apply backed name
  rw [Draft.pipes_eq] at hn ⊢
  simpa [Draft.into, bare] using hn

theorem leave_backed {d : Draft} (backed : d.Backed) : d.leave.Backed := by
  intro name hn
  rw [Draft.leave_with d] at hn ⊢
  apply backed name
  rw [Draft.pipes_eq] at hn ⊢
  rw [Draft.leave] at hn
  cases h : d.enclosing with
  | nil => simpa [h] using hn
  | cons outer rest =>
    rw [h] at hn
    rw [List.reverse_cons, List.flatMap_append, List.flatMap_singleton]
    exact List.mem_append_left _ hn

end ViewRouting.Router

namespace ViewRouting.Session
open Router Live Drafting

/-! Operations beside pipelines that are declared ahead. -/

/-- The step does the same if the pipelines have been declared before, as far as it is concerned. -/
def Unaware {α : Type} (m : Drafting α) (w : Workshop) : Prop :=
  ∀ later, m (w.ahead later) =
    match m w with
    | .ok a left => .ok a (left.ahead later)
    | .error fault left => .error fault (left.ahead later)

section Operations
variable {α β : Type} {w : Workshop}

theorem Unaware.bind {m : Drafting α} {f : α → Drafting β} (first : Unaware m w)
    (next : ∀ a left, m w = .ok a left → Unaware (f a) left) : Unaware (m >>= f) w := by
  intro later
  rw [bind_run, bind_run, first later]
  cases h : m w with
  | error fault left => rfl
  | ok a left => exact next a left h later

theorem Unaware.look {f : Draft → Drafting β} (same : ∀ later, f (w.draft.ahead later) = f w.draft)
    (next : Unaware (f w.draft) w) : Unaware (draft >>= f) w := by
  intro later
  rw [bind_run, bind_run]
  show f (w.draft.ahead later) (w.ahead later) = _
  rw [same]
  exact next later

theorem unaware_pure (a : α) (w : Workshop) : Unaware (pure a) w := fun _ => rfl

theorem unaware_throw (fault : Fault) (w : Workshop) : Unaware (throw fault : Drafting α) w :=
  fun _ => rfl

theorem unaware_check {ε : Type} (cause : ε → Fault) (e : Except ε α) (w : Workshop) :
    Unaware (check cause e) w := by
  intro later
  cases e <;> rfl

theorem unaware_note (events : List Trace.Event) (w : Workshop) : Unaware (note events) w := by
  intro later
  have journal : (w.ahead later).journal = w.journal := rfl
  rw [note_run, note_run, journal]
  rcases w.journal.noteAll events with ⟨_ | _, noted⟩ <;> rfl

theorem unaware_change {g : Draft → Draft}
    (same : ∀ later, g (w.draft.ahead later) = (g w.draft).ahead later) : Unaware (change g) w := by
  intro later
  show EStateM.Result.ok () { w with draft := g (w.draft.ahead later) } = _
  rw [same]
  rfl

theorem unaware_requireOpen (w : Workshop) : Unaware requireOpen w := by
  intro later
  rw [requireOpen_run, requireOpen_run]
  show (if w.draft.finished then _ else _) = _
  cases w.draft.finished <;> rfl

theorem add_unaware (verb path handler action : String) (options : AddOptions) (w : Workshop) :
    Unaware (add verb path handler action options) w := by
  apply (unaware_requireOpen w).bind
  intro _ w _
  apply (unaware_check _ _ w).bind
  intro _ w _
  apply Unaware.look fun _ => rfl
  apply (unaware_check _ _ w).bind
  intro own w _
  apply (unaware_check _ _ w).bind
  intro helper w _
  apply (unaware_note _ w).bind
  intro _ w _
  apply (unaware_change fun _ => rfl).bind
  intro _ w _
  exact unaware_pure _ w

theorem addGiven_unaware (verb path handler action : String) (given : Value) (w : Workshop) :
    Unaware (addGiven verb path handler action given) w := by
  apply (unaware_requireOpen w).bind
  intro _ w _
  apply (unaware_check _ _ w).bind
  intro _ w _
  apply (unaware_check _ _ w).bind
  intro options w _
  exact add_unaware verb path handler action options w

theorem describeIn_unaware (c : Conventions) (decl : Declaration) (backed : w.draft.Backed) :
    Unaware (describeIn c decl) w := by
  have host (later : Pipelines) : Host.ofDraft (w.draft.ahead later) = .ofDraft w.draft := by
    rw [Host.ofDraft, Draft.inherited_ahead backed]
    rfl
  apply Unaware.look fun later => by rw [host]
  apply (unaware_check _ _ w).bind
  intro built w _
  apply (unaware_note _ w).bind
  intro _ w _
  exact unaware_pure _ w

theorem finish_unaware (w : Workshop) : Unaware finish w := by
  apply (unaware_requireOpen w).bind
  intro _ w _
  apply (unaware_change fun _ => rfl).bind
  intro _ w _
  apply Unaware.look fun _ => rfl
  apply (unaware_note _ w).bind
  intro _ w _
  exact unaware_pure _ w

theorem Unaware.answer {m : Drafting α} (h : Unaware m w) (answer : α → β) :
    Unaware (do return answer (← m)) w :=
  h.bind fun _ left _ => unaware_pure _ left

theorem pipe_ahead {names : List String} {left : Workshop} (ran : pipe names w = .ok () left)
    (later : Pipelines) : pipe names (w.ahead later) = .ok () (left.ahead later) := by
  rcases pipe_cases names w with ⟨fault, h⟩ | ⟨unfinished, known, h⟩
  · cases h.symm.trans ran
  · cases h.symm.trans ran
    have found : (names.find? fun name =>
        ((w.draft.pipelines ++ later).lookup name).isNone) = none := by
      apply List.find?_eq_none.mpr
      intro name hn
      rw [lookup_ahead (known name hn)]
      simpa using known name hn
    have still : (w.ahead later).draft.finished = false := unfinished
    rw [pipe, bind_run, requireOpen_run, still]
    simp only [Bool.false_eq_true, if_false, bind_run, draft_run]
    simp only [Workshop.ahead, Draft.ahead, found]
    rfl

theorem perform_ahead {operation : Operation} (backed : w.draft.Backed)
    (other : ∀ name plugs, operation ≠ .pipeline name plugs) {outcome : Outcome} {left : Workshop}
    (ran : operation.perform w = .ok outcome left) (later : Pipelines) :
    operation.perform (w.ahead later) = .ok outcome (left.ahead later) := by
  have unaware (h : Unaware operation.perform w) :
      operation.perform (w.ahead later) = .ok outcome (left.ahead later) := by
    rw [h later, ran]
  cases operation with
  | pipeline name plugs => exact absurd rfl (other name plugs)
  | pipe names =>
    rw [Operation.perform, bind_run] at ran ⊢
    cases h : pipe names w with
    | error fault left =>
      rw [h] at ran
      cases ran
    | ok _ piped =>
      rw [h] at ran
      cases ran
      rw [pipe_ahead h later]
      rfl
  | qualify reference => exact unaware (.look (fun _ => rfl) (unaware_pure _ w))
  | inherited =>
    exact unaware (.look (fun _ => by rw [Draft.inherited_ahead backed]) (unaware_pure _ w))
  | add verb path handler action given =>
    exact unaware ((addGiven_unaware verb path handler action given w).answer Outcome.entry)
  | register c decl =>
    have registered : Unaware (register c decl) w := by
      apply (describeIn_unaware c decl backed).bind
      intro descriptor w _
      apply (add_unaware _ _ _ _ _ w).bind
      intro _ w _
      exact unaware_pure _ w
    exact unaware (registered.answer Outcome.descriptor)
  | describe c decl => exact unaware ((describeIn_unaware c decl backed).answer Outcome.descriptor)
  | finish => exact unaware ((finish_unaware w).answer Outcome.table)
  | raise message => exact unaware (unaware_throw _ w)
  | ask query => exact unaware (.look (fun _ => rfl) (unaware_pure _ w))

theorem effect_backed {d d' : Draft} {operation : Operation}
    (backed : d.Backed) (h : Effect d operation d') : d'.Backed := by
  cases h with
  | still | add | register | finish => exact backed
  | pipeline => exact fun name hn => (Keeps.append _ _).declared (backed name hn)
  | @pipe names _ known =>
    have piped : Draft.pipes { d with current := { d.current with
        pipes := d.current.pipes ++ names } } = d.pipes ++ names := by
      simp [Draft.pipes_eq]
    intro name hn
    rw [piped] at hn
    exact (List.mem_append.mp hn).elim (backed name) (known name)

end Operations

/-! Scopes. -/

section Scopes
variable {w : Workshop}

theorem enterScope_unaware (path : String) (options : Value) (w : Workshop) :
    Unaware (enterScope path options) w := by
  apply (unaware_requireOpen w).bind
  intro _ w _
  apply Unaware.look fun _ => rfl
  apply (unaware_check _ _ w).bind
  intro frame w _
  apply (unaware_note _ w).bind
  intro _ w _
  exact unaware_change fun _ => rfl

theorem enterScope_backed {path : String} {options : Value} {inner : Workshop}
    (backed : w.draft.Backed) (opened : enterScope path options w = .ok () inner) :
    inner.draft.Backed ∧ inner.draft.pipelines = w.draft.pipelines := by
  rcases enterScope_cases path options w with ⟨fault, journal, h⟩ | ⟨frame, journal, -, entered, h⟩
  · cases h.symm.trans opened
  · cases h.symm.trans opened
    exact ⟨into_backed backed (enter_pipes entered), rfl⟩

end Scopes

/-! What stands at the front, and what is left behind it. -/

def Operation.pipeline? : Operation → Option (String × List Plug)
  | .pipeline name plugs => some (name, plugs)
  | _ => none

mutual
def Step.pipelines : Step → Pipelines
  | .operation operation => operation.pipeline?.toList
  | .scope _ _ _ body => pipelinesOf body

def pipelinesOf : List Step → Pipelines
  | [] => []
  | step :: rest => step.pipelines ++ pipelinesOf rest
end

mutual
def Step.stripped : Step → List Step
  | .operation operation =>
    match operation.pipeline? with
    | some _ => []
    | none => [.operation operation]
  | .scope path options propagate body => [.scope path options propagate (stripped body)]

def stripped : List Step → List Step
  | [] => []
  | step :: rest => step.stripped ++ stripped rest
end

mutual
/-- The outcome of a step without those of the pipelines in it. -/
def Step.kept : Step → Outcome → List Outcome
  | .operation operation, outcome =>
    match operation.pipeline? with
    | some _ => []
    | none => [outcome]
  | .scope _ _ _ body, .scope inner => [.scope (kept body inner)]
  | .scope .., outcome => [outcome]

def kept : List Step → List Outcome → List Outcome
  | step :: rest, outcome :: outcomes => step.kept outcome ++ kept rest outcomes
  | _, _ => []
end

/-- The program with all its pipelines declared at the front. -/
def hoisted (steps : List Step) : List Step :=
  (pipelinesOf steps).map (fun p => .operation (.pipeline p.1 p.2)) ++ stripped steps

def Unfailing (outcomes : List Outcome) : Prop :=
  ∀ outcome ∈ spreadAll outcomes, outcome.fault? = none

/-- An outcome that says more than that the step is done. -/
def Outcome.isAnswer : Outcome → Bool
  | .done | .scope _ => false
  | _ => true

theorem spread_self (outcome : Outcome) : outcome ∈ outcome.spread := by
  rcases outcome with _ | _ | _ | _ | _ | _ | _ | _ | _ | _ | ⟨_, _ | _⟩ <;> simp [Outcome.spread]

theorem spreadAll_append (first next : List Outcome) :
    spreadAll (first ++ next) = spreadAll first ++ spreadAll next := by
  induction first with
  | nil => rfl
  | cons outcome first ih => rw [List.cons_append, spreadAll, spreadAll, ih, List.append_assoc]

theorem unfailing_cons {outcome : Outcome} {rest : List Outcome} :
    Unfailing (outcome :: rest) ↔ Unfailing [outcome] ∧ Unfailing rest := by
  simp [Unfailing, spreadAll, or_imp, forall_and]

theorem Unfailing.head {outcome : Outcome} {rest : List Outcome}
    (h : Unfailing (outcome :: rest)) : outcome.fault? = none :=
  h outcome (by rw [spreadAll]; exact List.mem_append_left _ (spread_self outcome))

/-! Runs of bodies. -/

section Runs
variable {propagate : Bool} {w left : Workshop}

theorem runBody_cons {step : Step} (on : propagate = true → (step.run w).1.fault? = none)
    (rest : List Step) :
    runBody propagate (step :: rest) w =
      let (report, left) := runBody propagate rest (step.run w).2
      (⟨(step.run w).1 :: report.outcomes, report.fault⟩, left) := by
  rw [runBody]
  cases propagate with
  | false => rfl
  | true => simp only [on rfl]

theorem runBody_append {first : List Step} {outcomes : List Outcome}
    (ran : runBody propagate first w = (⟨outcomes, none⟩, left)) (next : List Step) :
    runBody propagate (first ++ next) w =
      let (report, left) := runBody propagate next left
      (⟨outcomes ++ report.outcomes, report.fault⟩, left) := by
  induction first generalizing w outcomes with
  | nil =>
    rw [runBody] at ran
    cases ran
    rfl
  | cons step rest ih =>
    have on : propagate = true → (step.run w).1.fault? = none := by
      rintro rfl
      cases hf : (step.run w).1.fault? with
      | none => rfl
      | some fault =>
        rw [runBody] at ran
        simp only [hf] at ran
        cases ran
    rw [runBody_cons on] at ran
    rw [List.cons_append, runBody_cons on]
    generalize others : runBody propagate rest (step.run w).2 = behind at ran
    obtain ⟨⟨more, fault⟩, last⟩ := behind
    cases ran
    rw [ih others]
    rfl

theorem runBody_single {step : Step} (fine : (step.run w).1.fault? = none) :
    runBody propagate [step] w = (⟨[(step.run w).1], none⟩, (step.run w).2) := by
  rw [runBody_cons (fun _ => fine), runBody]

/-- Of steps that have not failed, those behind the declarations do the same if what the steps
declare was declared before, with more to come. -/
structure Foreseen (w left : Workshop) (declared : Pipelines) (steps : List Step)
    (outcomes kept : List Outcome) : Prop where
  backed : left.draft.Backed
  pipelines : left.draft.pipelines = w.draft.pipelines ++ declared
  admits : Admits w.draft.pipelines declared
  ran : ∀ propagate later, runBody propagate steps (w.ahead (declared ++ later)) =
    (⟨kept, none⟩, left.ahead later)
  same : (spreadAll kept).filter Outcome.isAnswer = (spreadAll outcomes).filter Outcome.isAnswer

namespace Foreseen

theorem nil (backed : w.draft.Backed) : Foreseen w w [] [] [] [] where
  backed := backed
  pipelines := (List.append_nil _).symm
  admits := trivial
  ran _ _ := by rw [runBody, List.nil_append]
  same := rfl

theorem append {middle : Workshop} {first next : Pipelines} {steps others : List Step}
    {outcomes kept outcomes' kept' : List Outcome}
    (before : Foreseen w middle first steps outcomes kept)
    (after : Foreseen middle left next others outcomes' kept') :
    Foreseen w left (first ++ next) (steps ++ others) (outcomes ++ outcomes') (kept ++ kept') where
  backed := after.backed
  pipelines := by rw [after.pipelines, before.pipelines, List.append_assoc]
  admits := admits_append.mpr ⟨before.admits, before.pipelines ▸ after.admits⟩
  ran propagate later := by
    rw [List.append_assoc, runBody_append (before.ran propagate (next ++ later)), after.ran]
  same := by
    rw [spreadAll_append, spreadAll_append, List.filter_append, List.filter_append, before.same,
      after.same]

end Foreseen

theorem pipeline_foreseen {name : String} {plugs : List Plug} (backed : w.draft.Backed)
    (fine : (recorded (Operation.pipeline name plugs).perform w).1.fault? = none) :
    let ran := recorded (Operation.pipeline name plugs).perform w
    Foreseen w ran.2 [(name, plugs)] [] [ran.1] [] := by
  have effect := perform_effect (.pipeline name plugs) w
  rw [recorded, Operation.perform, bind_run] at fine effect ⊢
  rcases pipeline_cases name plugs w with ⟨fault, h⟩ | ⟨-, new, h⟩
  · rw [h] at fine
    cases fine
  · rw [h] at effect ⊢
    exact {
      backed := effect_backed backed effect
      pipelines := rfl
      admits := ⟨new, trivial⟩
      ran := by
        intro propagate later
        rw [runBody, Workshop.ahead, Draft.ahead, List.singleton_append, List.append_cons]
        rfl
      same := rfl }

theorem other_foreseen {operation : Operation} (backed : w.draft.Backed)
    (other : operation.pipeline? = none) {outcome : Outcome}
    (ran : recorded operation.perform w = (outcome, left)) (fine : outcome.fault? = none) :
    Foreseen w left [] [.operation operation] [outcome] [outcome] := by
  have effect := perform_effect operation w
  have different : ∀ name plugs, operation ≠ .pipeline name plugs := by
    rintro name plugs rfl
    cases other
  rw [ran] at effect
  rw [recorded] at ran
  cases h : operation.perform w with
  | error fault failed =>
    rw [h] at ran
    cases ran
    cases fine
  | ok answer behind =>
    rw [h] at ran
    cases ran
    have pipelines : left.draft.pipelines = w.draft.pipelines := by
      generalize left.draft = d at effect
      cases effect with
      | pipeline => exact absurd rfl (different _ _)
      | still | pipe | add | register | finish => rfl
    have again (later : Pipelines) :
        Step.run (.operation operation) (w.ahead later) = (outcome, left.ahead later) := by
      rw [run_operation, recorded, perform_ahead backed different h later]
    exact {
      backed := effect_backed backed effect
      pipelines := by rw [pipelines, List.append_nil]
      admits := trivial
      ran := by
        intro propagate later
        rw [List.nil_append, runBody_single (by rw [again]; exact fine), again]
      same := rfl }

theorem operation_foreseen {operation : Operation} (backed : w.draft.Backed)
    (fine : (recorded operation.perform w).1.fault? = none) :
    let step : Step := .operation operation
    let ran := recorded operation.perform w
    Foreseen w ran.2 step.pipelines step.stripped [ran.1] (step.kept ran.1) := by
  intro step ran
  cases other : operation.pipeline? with
  | none =>
    simp only [step, Step.pipelines, Step.stripped, Step.kept, other]
    exact other_foreseen backed other rfl fine
  | some p =>
    cases operation <;> cases other
    exact pipeline_foreseen backed fine

theorem scope_foreseen {path : String} {options : Value} {propagate : Bool} {inner ended : Workshop}
    {declared : Pipelines} {body : List Step} {outcomes kept : List Outcome}
    (opened : enterScope path options w = .ok () inner)
    (same : inner.draft.pipelines = w.draft.pipelines)
    (inside : Foreseen inner ended declared body outcomes kept) :
    Foreseen w { ended with draft := ended.draft.leave } declared
      [.scope path options propagate body] [.scope outcomes] [.scope kept] where
  backed := leave_backed inside.backed
  pipelines := by
    rw [Draft.leave_with]
    exact same ▸ inside.pipelines
  admits := same ▸ inside.admits
  ran := by
    intro outside later
    have again : Step.run (.scope path options propagate body) (w.ahead (declared ++ later)) =
        (.scope kept, Workshop.ahead { ended with draft := ended.draft.leave } later) := by
      rw [run_scope, enterScope_unaware path options w, opened]
      simp only [inside.ran, scopeOutcome]
      simp only [Workshop.ahead, Draft.leave_ahead]
    rw [runBody_single (by rw [again]; rfl), again]
  same := by
    simp only [spreadAll, Outcome.spread, List.append_nil, List.filter_cons, Outcome.isAnswer,
      Bool.false_eq_true, if_false, inside.same]

mutual
theorem run_foreseen (step : Step) (w : Workshop) (backed : w.draft.Backed)
    (unfailing : Unfailing [(step.run w).1]) :
    Foreseen w (step.run w).2 step.pipelines step.stripped [(step.run w).1]
      (step.kept (step.run w).1) := by
  rcases step with operation | ⟨path, options, propagate, body⟩
  · rw [run_operation] at unfailing ⊢
    exact operation_foreseen backed unfailing.head
  · rw [run_scope] at unfailing ⊢
    cases opened : enterScope path options w with
    | error fault failed =>
      rw [opened] at unfailing
      cases unfailing.head
    | ok _ inner =>
      obtain ⟨within, same⟩ := enterScope_backed backed opened
      have inside := runBody_foreseen propagate body inner within
      simp only [opened] at unfailing ⊢
      generalize runBody propagate body inner = behind at unfailing inside ⊢
      obtain ⟨⟨outcomes, fault?⟩, ended⟩ := behind
      cases fault? with
      | some fault => cases unfailing.head
      | none =>
        simp only [scopeOutcome, Step.pipelines, Step.stripped, Step.kept]
        apply scope_foreseen opened same
        apply inside
        intro outcome among
        apply unfailing outcome
        simp [scopeOutcome, spreadAll, Outcome.spread, among]

theorem runBody_foreseen (propagate : Bool) (steps : List Step) (w : Workshop)
    (backed : w.draft.Backed) (unfailing : Unfailing (runBody propagate steps w).1.outcomes) :
    Foreseen w (runBody propagate steps w).2 (pipelinesOf steps) (stripped steps)
      (runBody propagate steps w).1.outcomes
      (kept steps (runBody propagate steps w).1.outcomes) := by
  rcases steps with _ | ⟨step, rest⟩
  · rw [runBody]
    exact .nil backed
  · have fine : (step.run w).1.fault? = none := by
      rcases body_cons propagate step rest w with ⟨_, ran, -⟩ | ⟨_, _, -, ran, -⟩ <;>
        exact Unfailing.head (by rw [ran] at unfailing; exact unfailing)
    rw [runBody_cons fun _ => fine] at unfailing ⊢
    obtain ⟨first, others⟩ := unfailing_cons.mp unfailing
    have before := run_foreseen step w backed first
    exact before.append (runBody_foreseen propagate rest (step.run w).2 before.backed others)
end

theorem declare_run {pipelines : Pipelines} (unfinished : w.draft.finished = false)
    (admits : Admits w.draft.pipelines pipelines) :
    runBody propagate (pipelines.map fun p => .operation (.pipeline p.1 p.2)) w =
      (⟨List.replicate pipelines.length .done, none⟩, w.ahead pipelines) := by
  induction pipelines generalizing w with
  | nil => rw [List.map_nil, runBody, Workshop.ahead_nil, List.length_nil, List.replicate_zero]
  | cons p pipelines ih =>
    obtain ⟨name, plugs⟩ := p
    obtain ⟨new, more⟩ := admits
    have declared : Step.run (.operation (.pipeline name plugs)) w =
        (.done, w.ahead [(name, plugs)]) := by
      rw [run_operation, recorded, Operation.perform, bind_run, pipeline, bind_run,
        requireOpen_run, unfinished]
      simp only [Bool.false_eq_true, if_false, bind_run, draft_run, new]
      rfl
    have next := ih (w := w.ahead [(name, plugs)]) unfinished more
    rw [List.map_cons, runBody_cons fun _ => by rw [declared]; rfl]
    simp only [declared, next, Workshop.ahead_ahead]
    rfl

end Runs

theorem spreadAll_done (n : Nat) :
    (spreadAll (List.replicate n .done)).filter Outcome.isAnswer = [] := by
  induction n with
  | zero => rfl
  | succ n ih =>
    rw [List.replicate_succ, spreadAll]
    exact ih

theorem unfailing_same {outcomes outcomes' : List Outcome} (unfailing : Unfailing outcomes)
    (same : (spreadAll outcomes').filter Outcome.isAnswer =
      (spreadAll outcomes).filter Outcome.isAnswer) : Unfailing outcomes' := by
  intro outcome among
  by_cases answers : outcome.isAnswer
  · have kept : outcome ∈ (spreadAll outcomes').filter Outcome.isAnswer :=
      List.mem_filter.mpr ⟨among, answers⟩
    rw [same] at kept
    exact unfailing outcome (List.mem_filter.mp kept).1
  · cases outcome <;> first | rfl | exact absurd rfl answers

/-- In a program in which nothing fails, inside scopes or outside, all pipelines may be declared
first. Then nothing fails either: the pipelines are declared, and what is behind them has the
outcomes that it had, with all the entries, descriptors, names and options in its answers. It leaves
the same draft and has written the same. -/
theorem pipelines_hoist {name : String} {options : RouterOptions} {w : Workshop}
    (started : Draft.start name options = .ok w.draft) {propagate : Bool} {steps : List Step}
    (unfailing : Unfailing (runBody propagate steps w).1.outcomes) :
    let ran := runBody propagate steps w
    let outcomes := List.replicate (pipelinesOf steps).length .done ++ kept steps ran.1.outcomes
    runBody propagate (hoisted steps) w = (⟨outcomes, none⟩, ran.2) ∧ Unfailing outcomes ∧
      (spreadAll outcomes).filter Outcome.isAnswer =
        (spreadAll ran.1.outcomes).filter Outcome.isAnswer := by
  intro ran outcomes
  have fresh := start_ok started
  have backed : w.draft.Backed := by
    rw [fresh]
    intro name hn
    cases hn
  have foreseen := runBody_foreseen propagate steps w backed unfailing
  have declared : runBody propagate
      ((pipelinesOf steps).map fun p => .operation (.pipeline p.1 p.2)) w = _ :=
    declare_run (by rw [fresh]) foreseen.admits
  have behind := foreseen.ran propagate []
  rw [List.append_nil, Workshop.ahead_nil] at behind
  have answers : (spreadAll outcomes).filter Outcome.isAnswer =
      (spreadAll ran.1.outcomes).filter Outcome.isAnswer := by
    rw [spreadAll_append, List.filter_append, spreadAll_done, List.nil_append, foreseen.same]
  refine ⟨?_, unfailing_same unfailing answers, answers⟩
  rw [hoisted, runBody_append declared, behind]

theorem pipelines_hoist_nested :
    ∃ steps : List Step,
      (pipelinesOf steps).map Prod.fst = ["browser", "admin", "deep"] ∧
      let ran := runBody false steps freshWorkshop
      let first := runBody false (hoisted steps) freshWorkshop
      Unfailing ran.1.outcomes ∧ Unfailing first.1.outcomes ∧ first.2 = ran.2 ∧
        (spreadAll first.1.outcomes).filter Outcome.isAnswer =
          (spreadAll ran.1.outcomes).filter Outcome.isAnswer ∧
        first.1.outcomes.length = 4 ∧
        first.2.draft.entries.map Entry.pipes = [["browser", "admin", "deep"]] ∧
        ((spreadAll first.1.outcomes).filterMap fun
          | .value v => some v.ownFields.length
          | _ => none) = [0, 1] := by
  -- Three pipelines at three depths. The second one, which has a layout, is declared between two
  -- readings of the options in effect, and only the second reading shows it.
  let steps : List Step := [
    .operation (.pipeline "browser" [.named "fetch" .undefined]),
    .scope "/admin" (.string "Admin") true [
      .operation (.pipe ["browser"]),
      .operation .inherited,
      .operation (.pipeline "admin" [.layout ⟨.string "App.AdminView", .string "admin"⟩]),
      .operation (.pipe ["admin"]),
      .operation .inherited,
      .scope "/deep" (.record []) false [
        .operation (.pipeline "deep" []),
        .operation (.pipe ["deep"]),
        .operation (.add "GET" "/log" "LogController" "index" .undefined)]]]
  have started : Draft.start "App.Router" {} = .ok freshWorkshop.draft := if_pos (by decide)
  have fine : ((spreadAll (runBody false steps freshWorkshop).1.outcomes).all
      fun outcome => outcome.fault?.isNone) = true := by
    decide +kernel
  have unfailing : Unfailing (runBody false steps freshWorkshop).1.outcomes := fun o ho => by
    simpa using List.all_eq_true.mp fine o ho
  obtain ⟨hoists, still, answers⟩ := pipelines_hoist started unfailing
  refine ⟨steps, by decide, unfailing, ?_, ?_, ?_, ?_, ?_, ?_⟩
  · rwa [hoists]
  · rw [hoists]
  · rwa [hoists]
  · decide +kernel
  · decide +kernel
  · decide +kernel

end ViewRouting.Session
