import Mathlib.Data.List.Forall2
import Mathlib.Logic.Function.Iterate
import ViewRouting.Proofs.Bodies

/-! The history of a program: the steps that were taken, in order, each with the workshop that it
met. A scope is listed where it is opened, before the steps of its body. The table that is taken
somewhere in a history holds the routes that were added before, each as its step answered it. From
then on only scopes are left, as they were open, and every step that would change the draft is
refused; the others answer as if the draft were still open. -/

namespace ViewRouting.Session
open Router Live

def Step.live? : Step → Option (Conventions × Declaration)
  | .operation (.register c declaration) => some (c, declaration)
  | _ => none

theorem Step.live?_eq_some {step : Step} {c : Conventions} {declaration : Declaration} :
    step.live? = some (c, declaration) ↔ step = .operation (.register c declaration) := by
  constructor
  · intro h
    cases step with
    | scope => cases h
    | operation operation =>
      cases operation <;> cases h
      rfl
  · rintro rfl
    rfl

def Outcome.descriptor? : Outcome → Option Descriptor
  | .descriptor d => some d
  | _ => none

theorem Outcome.descriptor?_eq_some {outcome : Outcome} {d : Descriptor} :
    outcome.descriptor? = some d ↔ outcome = .descriptor d := by
  cases outcome <;> simp [descriptor?]

def Outcome.added? : Outcome → Option Entry
  | .entry e => some e
  | _ => none

/-- A step that was taken, and the workshop that it met. -/
structure Turn where
  step : Step
  met : Workshop

namespace Turn

def outcome (turn : Turn) : Outcome :=
  (turn.step.run turn.met).1

def left (turn : Turn) : Workshop :=
  (turn.step.run turn.met).2

def adds (turn : Turn) : Bool :=
  match turn.step with
  | .operation (.add ..) | .operation (.register ..) => turn.outcome.fault?.isNone
  | _ => false

def taken? (turn : Turn) : Option Table :=
  match turn.step, turn.outcome with
  | .operation .finish, .table t => some t
  | _, _ => none

theorem taken?_eq_some {turn : Turn} {t : Table} :
    turn.taken? = some t ↔ turn.step = .operation .finish ∧ turn.outcome = .table t := by
  rw [taken?]
  constructor
  · intro h
    split at h
    · next finish built => exact ⟨finish, built.trans (congrArg _ (Option.some.inj h))⟩
    · cases h
  · rintro ⟨finish, built⟩
    rw [finish, built]

/-- The entry that a turn has returned. A live route is described first; its entry is returned by
the addition of what was described. -/
def Returned (turn : Turn) (e : Entry) : Prop :=
  match turn.step with
  | .operation (.register c declaration) =>
    ∃ descriptor described added,
      turn.outcome = .descriptor descriptor ∧
        describeIn c declaration turn.met = .ok descriptor described ∧
        let r := descriptor.registration c
        Drafting.add r.verb r.path r.handler r.action r.options described = .ok e added
  | _ => turn.outcome = .entry e

/-- Whether a step asks for a draft that is not finished. A live route is described before it does,
so one that cannot be described fails as ever. -/
def Alters (turn : Turn) : Prop :=
  match turn.step with
  | .operation (.register c declaration) =>
    ∃ descriptor described, describeIn c declaration turn.met = .ok descriptor described
  | .operation (.qualify _) | .operation .inherited | .operation (.describe ..)
  | .operation (.raise _) | .operation (.ask _) => False
  | _ => True

end Turn

mutual
def Step.history : Step → Workshop → List Turn
  | .operation operation, w => [⟨.operation operation, w⟩]
  | .scope path options propagate body, w =>
    ⟨.scope path options propagate body, w⟩ ::
      match Drafting.enterScope path options w with
      | .ok _ w => bodyHistory propagate body w
      | .error _ _ => []

/-- The steps that are taken of a body, up to the first that fails if the body propagates. -/
def bodyHistory (propagate : Bool) : List Step → Workshop → List Turn
  | [], _ => []
  | step :: rest, w =>
    step.history w ++
      match propagate, (step.run w).1.fault? with
      | true, some _ => []
      | _, _ => bodyHistory propagate rest (step.run w).2
end

/-! The outcomes of a history are those that the program reports. -/

mutual
def Outcome.spread : Outcome → List Outcome
  | .scope inner => .scope inner :: spreadAll inner
  | .failed fault (some inner) => .failed fault (some inner) :: spreadAll inner
  | outcome => [outcome]

def spreadAll : List Outcome → List Outcome
  | [] => []
  | outcome :: rest => outcome.spread ++ spreadAll rest
end

theorem query_spread (query : Query) (t : Table) : (query.run t).spread = [query.run t] := by
  cases query with
  | path helper action parameters asked =>
    rw [Query.run]
    cases t.path helper action parameters asked <;> rfl
  | dispatchData route | publicData route | liveTarget route | livePublic route =>
    rw [Query.run, onRoute]
    cases t.routes[route]? <;> rfl
  | listing | find => rfl

theorem perform_spread (operation : Operation) (w : Workshop) :
    (recorded operation.perform w).1.spread = [(recorded operation.perform w).1] := by
  rw [recorded]
  cases operation with
  | ask query => exact query_spread query w.draft.table
  | raise | qualify | inherited => rfl
  | pipeline name plugs =>
    rw [Operation.perform, bind_run]
    cases Drafting.pipeline name plugs w <;> rfl
  | pipe names =>
    rw [Operation.perform, bind_run]
    cases Drafting.pipe names w <;> rfl
  | add verb path handler action given =>
    rw [Operation.perform, bind_run]
    cases Drafting.addGiven verb path handler action given w <;> rfl
  | register c declaration =>
    rw [Operation.perform, bind_run]
    cases Live.register c declaration w <;> rfl
  | describe c declaration =>
    rw [Operation.perform, bind_run]
    cases describeIn c declaration w <;> rfl
  | finish =>
    rw [Operation.perform, bind_run]
    cases Drafting.finish w <;> rfl

theorem run_scope (path : String) (options : Value) (propagate : Bool) (body : List Step)
    (w : Workshop) :
    Step.run (.scope path options propagate body) w =
      match Drafting.enterScope path options w with
      | .error fault w => (.failed fault (some []), w)
      | .ok _ inner =>
        let (report, ended) := runBody propagate body inner
        scopeOutcome (.ok report { ended with draft := ended.draft.leave }) := by
  rw [Step.run, Drafting.scope_run]
  cases Drafting.enterScope path options w <;> rfl

theorem body_cons (propagate : Bool) (step : Step) (rest : List Step) (w : Workshop) :
    (∃ fault,
      runBody propagate (step :: rest) w =
        (⟨[(step.run w).1], some fault⟩, (step.run w).2) ∧
      bodyHistory propagate (step :: rest) w = step.history w) ∨
    ∃ report left, runBody propagate rest (step.run w).2 = (report, left) ∧
      runBody propagate (step :: rest) w =
        (⟨(step.run w).1 :: report.outcomes, report.fault⟩, left) ∧
      bodyHistory propagate (step :: rest) w =
        step.history w ++ bodyHistory propagate rest (step.run w).2 := by
  rw [bodyHistory.eq_def, runBody.eq_def]
  cases propagate with
  | false => exact .inr ⟨_, _, rfl, rfl, rfl⟩
  | true =>
    cases hf : (step.run w).1.fault? with
    | none => exact .inr ⟨_, _, rfl, by simp only [hf], by simp only [hf]⟩
    | some fault => exact .inl ⟨fault, by simp only [hf], by simp only [hf, List.append_nil]⟩

/-! What is taken stands in the text. -/

mutual
def Step.operations : Step → List Operation
  | .operation operation => [operation]
  | .scope _ _ _ body => bodyOperations body

def bodyOperations : List Step → List Operation
  | [] => []
  | step :: rest => step.operations ++ bodyOperations rest
end

mutual
theorem history_operations (step : Step) (w : Workshop) {operation : Operation} :
    ∀ turn ∈ step.history w, turn.step = .operation operation → operation ∈ step.operations := by
  rcases step with written | ⟨path, options, propagate, body⟩
  · rw [Step.history, Step.operations, List.forall_mem_singleton]
    rintro ⟨⟩
    exact List.mem_singleton_self operation
  · rw [Step.history, Step.operations, List.forall_mem_cons]
    refine ⟨nofun, ?_⟩
    cases Drafting.enterScope path options w with
    | error fault w => exact List.forall_mem_nil _
    | ok _ inner => exact bodyHistory_operations propagate body inner

theorem bodyHistory_operations (propagate : Bool) (steps : List Step) (w : Workshop)
    {operation : Operation} :
    ∀ turn ∈ bodyHistory propagate steps w, turn.step = .operation operation →
      operation ∈ bodyOperations steps := by
  rcases steps with _ | ⟨step, rest⟩
  · exact List.forall_mem_nil _
  · have first := @history_operations step w operation
    rw [bodyOperations]
    rcases body_cons propagate step rest w with
      ⟨fault, -, taken⟩ | ⟨report, left, -, -, taken⟩
    · rw [taken]
      exact fun turn ht same => List.mem_append_left _ (first turn ht same)
    · rw [taken, List.forall_mem_append]
      refine ⟨fun turn ht same => List.mem_append_left _ (first turn ht same), ?_⟩
      intro turn ht same
      exact List.mem_append_right _
        (bodyHistory_operations propagate rest (step.run w).2 turn ht same)
end

theorem scopeOutcome_spread (report : Report) (w : Workshop) :
    (scopeOutcome (.ok report w)).1.spread =
      (scopeOutcome (.ok report w)).1 :: spreadAll report.outcomes := by
  rcases report with ⟨outcomes, _ | fault⟩ <;> rfl

mutual
theorem history_outcomes (step : Step) (w : Workshop) :
    (step.history w).map Turn.outcome = (step.run w).1.spread := by
  rcases step with operation | ⟨path, options, propagate, body⟩
  · rw [Step.history, run_operation, perform_spread, List.map_singleton, Turn.outcome,
      run_operation]
  · rw [Step.history, List.map_cons, Turn.outcome, run_scope]
    cases Drafting.enterScope path options w with
    | error fault w => rfl
    | ok _ inner =>
      simp only [scopeOutcome_spread]
      rw [bodyHistory_outcomes propagate body inner]

theorem bodyHistory_outcomes (propagate : Bool) (steps : List Step) (w : Workshop) :
    (bodyHistory propagate steps w).map Turn.outcome =
      spreadAll (runBody propagate steps w).1.outcomes := by
  rcases steps with _ | ⟨step, rest⟩
  · rfl
  · have first := history_outcomes step w
    rcases body_cons propagate step rest w with
      ⟨fault, ran, taken⟩ | ⟨report, left, others, ran, taken⟩
    · rw [ran, taken, first, spreadAll, spreadAll, List.append_nil]
    · have next := bodyHistory_outcomes propagate rest (step.run w).2
      rw [others] at next
      rw [ran, taken, List.map_append, first, next, spreadAll]
end

/-! How the turns of a history hang together. Between them scopes are left. -/

/-- The turns lead from a draft to another one. -/
inductive Leads : Draft → List Turn → Draft → Prop
  | done (d : Draft) : Leads d [] d
  | leave {d d' : Draft} {turns : List Turn} (rest : Leads d.leave turns d') :
      Leads d turns d'
  | operate {operation : Operation} {w : Workshop} {d' : Draft} {turns : List Turn}
      (rest : Leads (recorded operation.perform w).2.draft turns d') :
      Leads w.draft (⟨.operation operation, w⟩ :: turns) d'
  | refused {path : String} {options : Value} {propagate : Bool} {body : List Step}
      {w : Workshop} {d' : Draft} {turns : List Turn} (rest : Leads w.draft turns d') :
      Leads w.draft (⟨.scope path options propagate body, w⟩ :: turns) d'
  | enter {path : String} {options : Value} {propagate : Bool} {body : List Step}
      {w inner : Workshop} {d' : Draft} {turns : List Turn}
      (opened : Drafting.enterScope path options w = .ok () inner)
      (rest : Leads inner.draft turns d') :
      Leads w.draft (⟨.scope path options propagate body, w⟩ :: turns) d'

-- The turns behind a step are carried along, so that no histories need to be put together.
mutual
theorem history_leads (step : Step) (w : Workshop) {turns : List Turn} {d' : Draft}
    (rest : Leads (step.run w).2.draft turns d') :
    Leads w.draft (step.history w ++ turns) d' := by
  rcases step with operation | ⟨path, options, propagate, body⟩
  · rw [run_operation] at rest
    rw [Step.history]
    exact .operate rest
  · rw [run_scope] at rest
    rw [Step.history]
    rcases Drafting.enterScope_cases path options w with
      ⟨fault, journal, h⟩ | ⟨frame, journal, -, -, h⟩
    · rw [h] at rest ⊢
      exact .refused rest
    · simp only [h, scopeOutcome_draft] at rest ⊢
      exact .enter h (bodyHistory_leads propagate body _ (.leave rest))

theorem bodyHistory_leads (propagate : Bool) (steps : List Step) (w : Workshop)
    {turns : List Turn} {d' : Draft}
    (rest : Leads (runBody propagate steps w).2.draft turns d') :
    Leads w.draft (bodyHistory propagate steps w ++ turns) d' := by
  rcases steps with _ | ⟨step, others⟩
  · exact rest
  · rcases body_cons propagate step others w with
      ⟨fault, ran, taken⟩ | ⟨report, left, next, ran, taken⟩
    · rw [ran] at rest
      rw [taken]
      exact history_leads step w rest
    · rw [ran] at rest
      rw [taken, List.append_assoc]
      apply history_leads step w
      apply bodyHistory_leads propagate others
      rwa [next]
end

namespace Leads

theorem part {d d' : Draft} {operation : Operation} {met : Workshop} {before after : List Turn}
    (h : Leads d (before ++ ⟨.operation operation, met⟩ :: after) d') :
    Leads d before met.draft ∧
      Leads (recorded operation.perform met).2.draft after d' := by
  -- Along the history; scopes that are left just before the operation belong to the first part.
  generalize parted : before ++ ⟨.operation operation, met⟩ :: after = turns at h
  induction h generalizing before with
  | done => simp at parted
  | leave _ ih =>
    obtain ⟨first, next⟩ := ih parted
    exact ⟨.leave first, next⟩
  | operate rest ih =>
    rcases List.append_eq_cons_iff.mp parted with ⟨rfl, same⟩ | ⟨before, rfl, same⟩
    · cases same
      exact ⟨.done _, rest⟩
    · obtain ⟨first, next⟩ := ih same.symm
      exact ⟨.operate first, next⟩
  | refused _ ih =>
    rcases List.append_eq_cons_iff.mp parted with ⟨rfl, same⟩ | ⟨before, rfl, same⟩
    · cases same
    · obtain ⟨first, next⟩ := ih same.symm
      exact ⟨.refused first, next⟩
  | enter opened _ ih =>
    rcases List.append_eq_cons_iff.mp parted with ⟨rfl, same⟩ | ⟨before, rfl, same⟩
    · cases same
    · obtain ⟨first, next⟩ := ih same.symm
      exact ⟨.enter opened first, next⟩

end Leads

/-! Routes are added one by one behind the others, and by nothing else. -/

theorem operate_entries (operation : Operation) (w : Workshop) :
    let turn : Turn := ⟨.operation operation, w⟩
    let after := (recorded operation.perform w).2.draft.entries
    (turn.adds = false ∧ after = w.draft.entries) ∨
      turn.adds = true ∧ ∃ e, turn.Returned e ∧ after = w.draft.entries ++ [e] := by
  have effect := perform_effect operation w
  cases operation with
  | add verb path handler action given =>
    simp only [Turn.adds, Turn.Returned, Turn.outcome, run_operation]
    rw [recorded, Operation.perform, bind_run]
    rcases Drafting.addGiven_cases verb path handler action given w with
      ⟨fault, journal, h⟩ | ⟨options, e, journal, -, -, h⟩
    · rw [h]
      exact .inl ⟨rfl, rfl⟩
    · rw [h]
      exact .inr ⟨rfl, e, rfl, rfl⟩
  | register c declaration =>
    simp only [Turn.adds, Turn.Returned, Turn.outcome, run_operation]
    rw [recorded, Operation.perform, bind_run, Live.register, bind_run]
    rcases describeIn_cases c declaration w with ⟨fault, journal, h⟩ | ⟨built, journal, -, h⟩
    · rw [h]
      exact .inl ⟨rfl, rfl⟩
    · simp only [h, bind_run]
      rcases Drafting.add_cases (built.value.registration c) { w with journal := journal } with
        ⟨fault, journal, added⟩ | ⟨e, journal, -, added⟩
      · rw [added]
        exact .inl ⟨rfl, rfl⟩
      · rw [added]
        exact .inr ⟨rfl, e, ⟨_, _, _, rfl, rfl, added⟩, rfl⟩
  | _ =>
    generalize (recorded (Operation.perform _) w).2.draft = d at effect ⊢
    cases effect <;> exact .inl ⟨rfl, rfl⟩

theorem Leads.entries {d d' : Draft} {turns : List Turn}
    (h : Leads d turns d') :
    ∃ es, d'.entries = d.entries ++ es ∧
      List.Forall₂ Turn.Returned (turns.filter Turn.adds) es := by
  induction h with
  | done => exact ⟨[], (List.append_nil _).symm, .nil⟩
  | @leave d _ _ _ ih =>
    rw [Draft.leave_with d] at ih
    exact ih
  | @operate operation w d' turns rest ih =>
    obtain ⟨es, appended, returned⟩ := ih
    rcases operate_entries operation w with ⟨adds, same⟩ | ⟨adds, e, first, more⟩
    · rw [List.filter_cons_of_neg (by simp [adds])]
      exact ⟨es, by rw [appended, same], returned⟩
    · rw [List.filter_cons_of_pos adds]
      refine ⟨e :: es, ?_, .cons first returned⟩
      rw [appended, more, List.append_assoc, List.singleton_append]
  | refused _ ih =>
    rw [List.filter_cons_of_neg (by simp [Turn.adds])]
    exact ih
  | enter opened _ ih =>
    obtain ⟨-, frame, entered⟩ := Drafting.enterScope_ok opened
    rw [entered] at ih
    rw [List.filter_cons_of_neg (by simp [Turn.adds])]
    exact ih

/-! Once the table is taken, scopes are left and nothing else happens to the draft. -/

theorem leave_iterate_sealed (n : Nat) (d : Draft) :
    Draft.leave^[n] d.sealed = (Draft.leave^[n] d).sealed :=
  Function.Commute.iterate_left Draft.leave_sealed n d

theorem leave_iterate_with (n : Nat) (d : Draft) :
    Draft.leave^[n] d = { d with
      current := (Draft.leave^[n] d).current
      enclosing := (Draft.leave^[n] d).enclosing } := by
  induction n with
  | zero => rfl
  | succ n ih =>
    rw [Function.iterate_succ_apply', Draft.leave_with, ih]

theorem leave_iterate_root {n : Nat} {d : Draft} (root : (Draft.leave^[n] d).enclosing = []) :
    Draft.leave^[n] d = Draft.leave^[d.enclosing.length] d := by
  induction n generalizing d with
  | zero =>
    have root : d.enclosing = [] := root
    rw [root]
    rfl
  | succ n ih =>
    rw [Function.iterate_succ_apply] at root ⊢
    rw [ih root]
    cases h : d.enclosing with
    | nil => simp [Draft.leave, h]
    | cons outer rest =>
      have left : d.leave.enclosing = rest := by simp [Draft.leave, h]
      rw [left, List.length_cons, Function.iterate_succ_apply]

theorem Effect.of_finished {d d' : Draft} {operation : Operation}
    (h : Effect d operation d') (finished : d.finished = true) : d' = d := by
  have opened (unfinished : d.finished = false) : d' = d := by
    simp [finished] at unfinished
  cases h with
  | still => rfl
  | pipeline _ unfinished | pipe unfinished | finish unfinished => exact opened unfinished
  | add _ accepted | register _ accepted => exact opened (Draft.accept_ok.mp accepted).1

theorem Leads.of_finished {d d' : Draft} {turns : List Turn}
    (h : Leads d turns d') (finished : d.finished = true) :
    (∀ turn ∈ turns, ∃ n, turn.met.draft = Draft.leave^[n] d) ∧ ∃ n, d' = Draft.leave^[n] d := by
  induction h with
  | done => exact ⟨List.forall_mem_nil _, 0, rfl⟩
  | @leave d _ _ _ ih =>
    obtain ⟨met, n, ended⟩ := ih (by rw [Draft.leave_with]; exact finished)
    refine ⟨?_, n + 1, ended⟩
    intro turn ht
    obtain ⟨n, hn⟩ := met turn ht
    exact ⟨n + 1, hn⟩
  | @operate operation w _ _ _ ih =>
    rw [(perform_effect operation w).of_finished finished] at ih
    obtain ⟨met, ended⟩ := ih finished
    exact ⟨List.forall_mem_cons.mpr ⟨⟨0, rfl⟩, met⟩, ended⟩
  | refused _ ih =>
    obtain ⟨met, ended⟩ := ih finished
    exact ⟨List.forall_mem_cons.mpr ⟨⟨0, rfl⟩, met⟩, ended⟩
  | enter opened _ _ =>
    have unfinished := (Drafting.enterScope_ok opened).1
    rw [finished] at unfinished
    cases unfinished

theorem requireOpen_sealed {α : Type} (f : Unit → Drafting α) (w : Workshop) :
    (Drafting.requireOpen >>= f) w.sealed =
      .error (.router (.finished w.draft.name)) w.sealed := by
  rw [bind_run, Drafting.requireOpen_run]
  rfl

theorem recorded_refused {α : Type} {m : Drafting α} {f : α → Drafting Outcome} {w left : Workshop}
    {fault : Fault} (refused : m w = .error fault left) :
    recorded (m >>= f) w = (.failed fault none, left) := by
  rw [recorded, bind_run, refused]

def Step.refusal (router : String) : Step → Outcome
  | .operation _ => .failed (.router (.finished router)) none
  | .scope .. => .failed (.router (.finished router)) (some [])

theorem describeIn_sealed (c : Conventions) (declaration : Declaration) (w : Workshop) :
    describeIn c declaration w.sealed =
      match describeIn c declaration w with
      | .ok descriptor w => .ok descriptor w.sealed
      | .error fault w => .error fault w.sealed := by
  have host : Host.ofDraft w.sealed.draft = .ofDraft w.draft := rfl
  rw [describeIn_run, describeIn_run, host]
  cases describe c (.ofDraft w.draft) declaration with
  | error fault => rfl
  | ok built =>
    have journal : w.sealed.journal = w.journal := rfl
    simp only [journal]
    rcases w.journal.noteAll built.events with ⟨fault | _, journal⟩ <;> rfl

theorem run_sealed_refused {step : Step} {w : Workshop}
    (alters : Turn.Alters ⟨step, w.sealed⟩) :
    (step.run w.sealed).1 = step.refusal w.draft.name := by
  cases step with
  | scope path options propagate body =>
    rw [run_scope, Drafting.enterScope, requireOpen_sealed]
    rfl
  | operation operation =>
    rw [run_operation]
    cases operation with
    | qualify | inherited | describe | raise | ask => exact alters.elim
    | pipeline | pipe | add | finish =>
      -- Each of them begins with the question whether the draft is open.
      exact congrArg Prod.fst (recorded_refused (requireOpen_sealed _ w))
    | register c declaration =>
      obtain ⟨descriptor, described, alters⟩ := alters
      obtain ⟨journal, rfl⟩ : ∃ journal, described = Workshop.sealed ⟨w.draft, journal⟩ := by
        rcases describeIn_cases c declaration w.sealed with
          ⟨fault, journal, h⟩ | ⟨built, journal, -, h⟩
        · cases h.symm.trans alters
        · cases h.symm.trans alters
          exact ⟨journal, rfl⟩
      have refused : Live.register c declaration w.sealed =
          .error (.router (.finished w.draft.name)) (Workshop.sealed ⟨w.draft, journal⟩) := by
        rw [Live.register, bind_run, alters]
        simp only
        rw [bind_run, Drafting.add, requireOpen_sealed]
      exact congrArg Prod.fst (recorded_refused refused)

theorem run_sealed_answered {step : Step} {w : Workshop}
    (keeps : ¬Turn.Alters ⟨step, w.sealed⟩) :
    step.run w.sealed = ((step.run w).1, (step.run w).2.sealed) := by
  cases step with
  | scope => exact absurd trivial keeps
  | operation operation =>
    rw [run_operation, run_operation, recorded, recorded]
    cases operation with
    | pipeline | pipe | add | finish => exact absurd trivial keeps
    | qualify | inherited | raise | ask => rfl
    | describe c declaration =>
      rw [Operation.perform, bind_run, bind_run, describeIn_sealed]
      cases describeIn c declaration w <;> rfl
    | register c declaration =>
      rw [Operation.perform, Live.register, bind_run, bind_run, bind_run, bind_run,
        describeIn_sealed]
      cases h : describeIn c declaration w with
      | error fault left => rfl
      | ok descriptor described =>
        refine absurd ⟨descriptor, described.sealed, ?_⟩ keeps
        rw [describeIn_sealed, h]

theorem run_sealed_draft (step : Step) (w : Workshop) :
    (step.run w.sealed).2.draft = w.draft.sealed := by
  cases step with
  | operation operation =>
    rw [run_operation]
    exact (perform_effect operation w.sealed).of_finished rfl
  | scope path options propagate body =>
    rw [run_scope, Drafting.enterScope, requireOpen_sealed]
    rfl

theorem refusal_code (step : Step) (router : String) :
    (step.refusal router).fault?.bind Fault.code? = some "ROUTER_SEALED" := by
  cases step <;> rfl

/-- A turn on a finished draft, and how it compares with `opened`, where the draft is not. -/
structure Turn.Sealed (opened : Workshop) (turn : Turn) : Prop where
  met : turn.met = opened.sealed
  kept : (turn.left).draft = turn.met.draft
  refused : turn.Alters →
    turn.outcome = turn.step.refusal opened.draft.name ∧
      turn.outcome.fault?.bind Fault.code? = some "ROUTER_SEALED"
  answered : ¬turn.Alters →
    turn.outcome = (turn.step.run opened).1 ∧
      turn.left = (turn.step.run opened).2.sealed

theorem turn_sealed (step : Step) (opened : Workshop) :
    Turn.Sealed opened ⟨step, opened.sealed⟩ where
  met := rfl
  kept := run_sealed_draft step opened
  refused alters := by
    rw [Turn.outcome, run_sealed_refused alters]
    exact ⟨rfl, refusal_code step opened.draft.name⟩
  answered keeps := by
    rw [Turn.outcome, Turn.left, run_sealed_answered keeps]
    exact ⟨rfl, rfl⟩

theorem start_ok {name : String} {options : RouterOptions} {start : Draft}
    (started : Draft.start name options = .ok start) :
    start = { name := name, handlerSuffix := options.handlerSuffix } := by
  rw [Draft.start] at started
  split at started <;> cases started
  rfl

theorem finish_table {met : Workshop} {t : Table}
    (built : Turn.outcome ⟨.operation .finish, met⟩ = .table t) :
    met.draft.finished = false ∧ t.routes = met.draft.entries ∧
      (recorded Operation.finish.perform met).2.draft = met.draft.sealed := by
  rw [Turn.outcome, run_operation] at built
  rw [recorded, Operation.perform, bind_run] at built ⊢
  rcases Drafting.finish_cases met with ⟨fault, h⟩ | ⟨journal, unfinished, h⟩
  · rw [h] at built
    cases built
  · rw [h] at built ⊢
    cases built
    exact ⟨unfinished, rfl, rfl⟩

/-- Where the table is taken somewhere in a program, also inside its scopes, its routes are the
entries that the steps before have returned, in their order, and no step changes them any more. From
then on the scopes that are open are left as ever, and every step on the way answers as if the draft
were open or, if it would change it, is refused. -/
theorem table_append_only {name : String} {options : RouterOptions} {w : Workshop}
    {propagate : Bool} {steps : List Step} {before after : List Turn} {met : Workshop} {t : Table}
    (started : Draft.start name options = .ok w.draft)
    (taken : bodyHistory propagate steps w = before ++ ⟨.operation .finish, met⟩ :: after)
    (built : Turn.outcome ⟨.operation .finish, met⟩ = .table t) :
    let ran := runBody propagate steps w
    spreadAll ran.1.outcomes =
        before.map Turn.outcome ++ .table t :: after.map Turn.outcome ∧
      List.Forall₂ Turn.Returned (before.filter Turn.adds) t.routes ∧
      ran.2.draft = (Draft.leave^[met.draft.enclosing.length] met.draft).sealed ∧
      ran.2.draft.entries = t.routes ∧
      ∀ later ∈ after, later.met.draft.entries = t.routes ∧
        ∃ n opened, opened.draft = Draft.leave^[n] met.draft ∧
          opened.draft.finished = false ∧ later.Sealed opened := by
  have fresh := start_ok started
  have outcomes := bodyHistory_outcomes propagate steps w
  have leads : Leads w.draft (bodyHistory propagate steps w ++ [])
      (runBody propagate steps w).2.draft :=
    bodyHistory_leads propagate steps w (.done _)
  have grown : Grown w.draft (runBody propagate steps w).2.draft :=
    (runBody_isBody propagate steps).lasting grown_lasting w
  rw [List.append_nil, taken] at leads
  rw [taken, List.map_append, List.map_cons, built] at outcomes
  obtain ⟨before_finish, after_finish⟩ := leads.part
  obtain ⟨unfinished, handed, left⟩ := finish_table built
  rw [left] at after_finish
  obtain ⟨es, appended, returned⟩ := before_finish.entries
  obtain ⟨afterwards, n, ended⟩ := after_finish.of_finished rfl
  have routes : t.routes = es := by
    rw [handed, appended, fresh, List.nil_append]
  have closed : (Draft.leave^[n] met.draft).enclosing = [] := by
    have same := grown.enclosing
    rwa [ended, leave_iterate_sealed, fresh] at same
  have keeps (n : Nat) : (Draft.leave^[n] met.draft).entries = t.routes := by
    rw [leave_iterate_with, handed]
  rw [leave_iterate_sealed] at ended
  refine ⟨outcomes.symm, routes ▸ returned, ?_, ?_, ?_⟩
  · rw [← leave_iterate_root closed]
    exact ended
  · rw [ended]
    exact keeps n
  · intro later hl
    obtain ⟨n, hm⟩ := afterwards later hl
    rw [leave_iterate_sealed] at hm
    refine ⟨by rw [hm]; exact keeps n, n, ⟨Draft.leave^[n] met.draft, later.met.journal⟩, rfl,
      ?_, ?_⟩
    · rw [leave_iterate_with]
      exact unfinished
    · obtain ⟨step, w, journal⟩ := later
      cases hm
      exact turn_sealed step _

/-- Takes its table inside a scope, behind a route that is refused and a live one. -/
def nestedProgram : List Step :=
  let get (path handler : String) : Step := .operation (.add "GET" path handler "index" .undefined)
  let live (path view : String) : Step :=
    .operation (.register {} { path := path, view := view, action := some (.string "index") })
  [.operation (.pipeline "browser" []),
    get "/" "PageController",
    .scope "/admin" (.string "Admin") false [
      .operation (.pipe ["browser"]),
      get "log" "LogController",
      live "/users" "UserLive.Index",
      .operation .finish,
      get "/late" "LateController",
      live "/late" "LateLive.Index",
      .scope "/deep" (.record []) false [get "/deep" "DeepController"],
      .operation (.qualify "Log")],
    .operation (.pipe ["browser"]),
    .operation .finish]

def freshWorkshop : Workshop :=
  ⟨{ name := "App.Router", handlerSuffix := .string "Controller" }, .fresh none {} .epoch, []⟩

theorem freshWorkshop_reachable : Reachable freshWorkshop.draft :=
  ⟨"App.Router", {}, _, ⟨"Controller", rfl⟩, if_pos (by decide), .refl⟩

theorem table_append_only_nested :
    ∃ before met after t, Draft.start "App.Router" {} = .ok freshWorkshop.draft ∧
      bodyHistory false nestedProgram freshWorkshop =
        before ++ ⟨.operation .finish, met⟩ :: after ∧
      Turn.outcome ⟨.operation .finish, met⟩ = .table t ∧
      before.length = 6 ∧ met.draft.enclosing.length = 1 ∧ after.length = 6 ∧
      t.routes.map Entry.path = ["/", "/admin/users"] ∧
      List.Forall₂ Turn.Returned (before.filter Turn.adds) t.routes ∧
      (runBody false nestedProgram freshWorkshop).2.draft.entries = t.routes ∧
      ∀ later ∈ after, ∃ n opened, opened.draft = Draft.leave^[n] met.draft ∧
        opened.draft.finished = false ∧ later.Sealed opened := by
  have started : Draft.start "App.Router" {} = .ok freshWorkshop.draft := if_pos (by decide)
  have length : (bodyHistory false nestedProgram freshWorkshop).length = 13 := by
    decide +kernel
  have seventh : ((bodyHistory false nestedProgram freshWorkshop)[6]?.bind fun turn =>
      (turn.taken?).map fun t => (turn.met.draft.enclosing.length, t.routes.map Entry.path)) =
        some (1, ["/", "/admin/users"]) := by
    decide +kernel
  generalize hh : bodyHistory false nestedProgram freshWorkshop = history at length seventh ⊢
  rw [List.getElem?_eq_getElem (by omega), Option.bind_some] at seventh
  have parted : history = history.take 6 ++ history[6] :: history.drop 7 := by
    rw [← List.drop_eq_getElem_cons, List.take_append_drop]
  generalize history[6] = turn at seventh parted
  obtain ⟨step, met⟩ := turn
  obtain ⟨t, table, seventh⟩ := Option.map_eq_some_iff.mp seventh
  obtain ⟨rfl, built⟩ := Turn.taken?_eq_some.mp table
  obtain ⟨-, returned, -, kept, later⟩ := table_append_only started (hh.trans parted) built
  obtain ⟨inside, routes⟩ := Prod.mk.inj seventh
  refine ⟨_, met, _, t, started, parted, built, ?_, inside, ?_, routes, returned, kept, ?_⟩
  · rw [List.length_take, length]
    rfl
  · rw [List.length_drop, length]
  · intro turn ht
    exact (later turn ht).2

end ViewRouting.Session
