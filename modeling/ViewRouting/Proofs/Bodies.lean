import ViewRouting.Proofs.Reachable

/-! What a scope leaves behind. The body of a scope may be any computation that works on the draft by
operations and scopes: it may go by what they answered, fail wherever it likes, and catch faults. The
stack that it stands on is the same afterwards, with the pipelines of every scope, and what was
declared stays in front of what the body added. Only the body that ran says what was added; an
operation that fails, and a scope that is not opened, leave the draft as it was. -/

namespace ViewRouting.Session
open Router Live

/-- What the body of a scope may be. -/
inductive Body : {α : Type} → Drafting α → Prop
  | pure {α : Type} (a : α) : Body (pure a : Drafting α)
  | throw {α : Type} (fault : Fault) : Body (throw fault : Drafting α)
  | bind {α β : Type} {m : Drafting α} {f : α → Drafting β} (first : Body m)
      (next : ∀ a, Body (f a)) : Body (m >>= f)
  | attempt {α : Type} {m : Drafting α} (step : Body m) : Body (Drafting.attempt m)
  | operate (operation : Operation) : Body operation.perform
  | scope {α : Type} {m : Drafting α} (path : String) (options : Value) (body : Body m) :
      Body (Drafting.scope path options m)

/-- A relation of drafts to later drafts that operations keep, and scopes too if their bodies do. -/
structure Lasting (R : Draft → Draft → Prop) : Prop where
  refl : ∀ d, R d d
  trans : ∀ {d d' d''}, R d d' → R d' d'' → R d d''
  operate : ∀ {d d' operation}, Effect d operation d' → R d d'
  scope : ∀ {d d' frame}, R (d.into frame) d' → R d d'.leave

/-! The draft that is left by a computation, from those that its parts leave. -/

theorem leftBy_bind {α β : Type} (m : Drafting α) (f : α → Drafting β) (w : Workshop) :
    leftBy (m >>= f) w.draft w.journal =
      match m w with
      | .ok a w => leftBy (f a) w.draft w.journal
      | .error _ w => w.draft := by
  rw [leftBy, bind_run]
  cases m w <;> rfl

theorem leftBy_attempt {α : Type} (m : Drafting α) (w : Workshop) :
    leftBy (Drafting.attempt m) w.draft w.journal = leftBy m w.draft w.journal := by
  simp only [leftBy, Drafting.attempt]
  cases m w <;> rfl

theorem leftBy_scope {α : Type} (path : String) (options : Value) (m : Drafting α)
    (w : Workshop) :
    leftBy (Drafting.scope path options m) w.draft w.journal =
      match Drafting.enterScope path options w with
      | .ok _ w => (leftBy m w.draft w.journal).leave
      | .error _ w => w.draft := by
  rw [leftBy, Drafting.scope_run]
  cases Drafting.enterScope path options w with
  | error fault w => rfl
  | ok _ w =>
    simp only [leftBy]
    cases m w <;> rfl

theorem Body.lasting {R : Draft → Draft → Prop} (keeps : Lasting R) {α : Type} {m : Drafting α}
    (h : Body m) (w : Workshop) : R w.draft (leftBy m w.draft w.journal) := by
  induction h generalizing w with
  | pure | throw => exact keeps.refl _
  | @bind _ _ m f first next first_ih next_ih =>
    have before := first_ih w
    rw [leftBy_bind]
    rw [leftBy] at before
    cases hm : m w with
    | ok a w' =>
      rw [hm] at before
      exact keeps.trans before (next_ih a w')
    | error fault w' =>
      rw [hm] at before
      exact before
  | attempt step ih =>
    rw [leftBy_attempt]
    exact ih w
  | operate operation =>
    rw [leftBy_perform]
    exact keeps.operate (perform_effect operation w)
  | scope path options body ih =>
    rw [leftBy_scope]
    rcases Drafting.enterScope_cases path options w with
      ⟨fault, journal, h⟩ | ⟨frame, journal, -, -, h⟩
    · rw [h]
      exact keeps.refl _
    · rw [h]
      exact keeps.scope (ih ⟨w.draft.into frame, journal⟩)

/-! The steps of programs are such bodies. -/

theorem total_operation (operation : Operation) :
    Drafting.total (Step.run (.operation operation)) = (do
      match ← Drafting.attempt operation.perform with
      | .ok outcome => pure outcome
      | .error fault => pure (.failed fault none)) := by
  funext w
  rw [Drafting.total, run_operation, recorded, bind_run, Drafting.attempt]
  cases operation.perform w <;> rfl

theorem total_scope (path : String) (options : Value) (propagate : Bool)
    (body : List Step) :
    Drafting.total (Step.run (.scope path options propagate body)) = (do
      match ← Drafting.attempt
        (Drafting.scope path options (Drafting.total (runBody propagate body))) with
      | .ok ⟨inner, none⟩ => pure (.scope inner)
      | .ok ⟨inner, some fault⟩ => pure (.failed fault (some inner))
      | .error fault => pure (.failed fault (some []))) := by
  funext w
  rw [Drafting.total, Step.run, bind_run, Drafting.attempt]
  rcases Drafting.scope path options (Drafting.total (runBody propagate body)) w with
    ⟨⟨inner, _ | fault⟩, w'⟩ | ⟨fault, w'⟩ <;> rfl

theorem total_runBody_cons (propagate : Bool) (step : Step) (rest : List Step) :
    Drafting.total (runBody propagate (step :: rest)) = (do
      let outcome ← Drafting.total step.run
      match propagate, outcome.fault? with
      | true, some fault => pure ⟨[outcome], some fault⟩
      | _, _ => do
        let report ← Drafting.total (runBody propagate rest)
        pure ⟨outcome :: report.outcomes, report.fault⟩) := by
  funext w
  rw [bind_run]
  simp only [Drafting.total, runBody]
  cases propagate with
  | false => rfl
  | true => cases (step.run w).1.fault? <;> rfl

mutual
theorem run_isBody (step : Step) : Body (Drafting.total step.run) := by
  rcases step with operation | ⟨path, options, propagate, body⟩
  · rw [total_operation]
    apply (Body.operate operation).attempt.bind
    intro result
    cases result <;> exact .pure _
  · rw [total_scope]
    apply ((runBody_isBody propagate body).scope path options).attempt.bind
    intro (result : Except Fault Report)
    rcases result with fault | ⟨inner, _ | fault⟩ <;> exact .pure _

theorem runBody_isBody (propagate : Bool) (steps : List Step) :
    Body (Drafting.total (runBody propagate steps)) := by
  rcases steps with _ | ⟨step, rest⟩
  · exact .pure (⟨[], none⟩ : Report)
  · rw [total_runBody_cons]
    apply (run_isBody step).bind
    intro outcome
    have others := (runBody_isBody propagate rest).bind fun report =>
      .pure (⟨outcome :: report.outcomes, report.fault⟩ : Report)
    split
    · exact .pure _
    · exact others
end

/-! What bodies keep. -/

/-- The draft on the same stack with more declared. -/
structure Grown (d d' : Draft) : Prop extends SameScopes d d' where
  name : d'.name = d.name
  handlerSuffix : d'.handlerSuffix = d.handlerSuffix
  pipelines : d.pipelines <+: d'.pipelines
  entries : d.entries <+: d'.entries

namespace Grown

protected theorem refl (d : Draft) : Grown d d :=
  ⟨.refl d, rfl, rfl, List.prefix_rfl, List.prefix_rfl⟩

protected theorem trans {d d' d'' : Draft} (first : Grown d d') (next : Grown d' d'') :
    Grown d d'' where
  toSameScopes := first.toSameScopes.trans next.toSameScopes
  name := next.name.trans first.name
  handlerSuffix := next.handlerSuffix.trans first.handlerSuffix
  pipelines := first.pipelines.trans next.pipelines
  entries := first.entries.trans next.entries

theorem leave {d d' : Draft} {frame : Frame} (grown : Grown (d.into frame) d') :
    Grown d d'.leave := by
  have same := grown.toSameScopes.leave.2
  rw [Draft.leave_with] at same ⊢
  exact { grown with toSameScopes := same }

theorem leave_eq {d d' : Draft} {frame : Frame} (grown : Grown (d.into frame) d') :
    d'.leave = { d with
      pipelines := d'.pipelines
      entries := d'.entries
      finished := d'.finished } := by
  have stack : d'.enclosing = d.current :: d.enclosing := grown.enclosing
  have name : d'.name = d.name := grown.name
  have handlerSuffix : d'.handlerSuffix = d.handlerSuffix := grown.handlerSuffix
  rw [Draft.leave, stack, name, handlerSuffix]

end Grown

theorem Effect.grown {d d' : Draft} {operation : Operation}
    (h : Effect d operation d') : Grown d d' := by
  have same := h.sameScopes
  cases h with
  | still => exact .refl _
  | pipe | finish => exact ⟨same, rfl, rfl, List.prefix_rfl, List.prefix_rfl⟩
  | pipeline => exact ⟨same, rfl, rfl, List.prefix_append _ _, List.prefix_rfl⟩
  | add | register => exact ⟨same, rfl, rfl, List.prefix_rfl, List.prefix_append _ _⟩

theorem grown_lasting : Lasting Grown :=
  ⟨Grown.refl, Grown.trans, Effect.grown, Grown.leave⟩

theorem leftBy_scope_opened {path : String} {options : Value} {w inner : Workshop}
    (opened : Drafting.enterScope path options w = .ok () inner) {α : Type} {m : Drafting α}
    (body : Body m) :
    let ended := leftBy m inner.draft inner.journal
    leftBy (Drafting.scope path options m) w.draft w.journal = { w.draft with
        pipelines := ended.pipelines
        entries := ended.entries
        finished := ended.finished } ∧
      w.draft.pipelines <+: ended.pipelines ∧ w.draft.entries <+: ended.entries := by
  obtain ⟨-, frame, entered⟩ := Drafting.enterScope_ok opened
  have grown : Grown (w.draft.into frame) (leftBy m inner.draft inner.journal) := by
    rw [← entered]
    exact body.lasting grown_lasting inner
  rw [leftBy_scope, opened]
  exact ⟨grown.leave_eq, grown.pipelines, grown.entries⟩

/-- An operation that fails changes nothing in the draft, nor does a scope that is not opened. A
scope that is opened leaves every frame below it as it was, however its body ends, and of what its
body did there stay the declarations. The steps of programs are such bodies, too. -/
theorem scope_restoration (w : Workshop) :
    (∀ {operation : Operation} {fault : Fault} {w' : Workshop},
        operation.perform w = .error fault w' → w'.draft = w.draft) ∧
      (∀ {path : String} {options : Value} {fault : Fault} {w' : Workshop},
        Drafting.enterScope path options w = .error fault w' →
          w'.draft = w.draft ∧ ∀ {α : Type} (m : Drafting α),
            Drafting.scope path options m w = .error fault w') ∧
      (∀ {path : String} {options : Value} {inner : Workshop},
        Drafting.enterScope path options w = .ok () inner →
          ∀ {α : Type} {m : Drafting α}, Body m →
            let ended := leftBy m inner.draft inner.journal
            let left := leftBy (Drafting.scope path options m) w.draft w.journal
            left = { w.draft with
                pipelines := ended.pipelines
                entries := ended.entries
                finished := ended.finished } ∧
              w.draft.pipelines <+: ended.pipelines ∧ w.draft.entries <+: ended.entries ∧
              left.frames = w.draft.frames ∧ left.pipes = w.draft.pipes ∧
              left.qualify = w.draft.qualify) ∧
      ∀ (propagate : Bool) (steps : List Step),
        Body (Drafting.total (runBody propagate steps)) := by
  refine ⟨perform_error, ?_, ?_, runBody_isBody⟩
  · intro path options fault w' refused
    refine ⟨Drafting.enterScope_error refused, ?_⟩
    intro α m
    rw [Drafting.scope_run, refused]
  · intro path options inner opened α m body
    obtain ⟨left, pipelines, entries⟩ := leftBy_scope_opened opened body
    refine ⟨left, pipelines, entries, ?_⟩
    rw [left]
    exact ⟨rfl, rfl, rfl⟩

theorem scope_restoration_raising :
    ∃ (w refused inner : Workshop) (unknown : Fault) (m : Drafting Outcome),
      (Operation.pipe ["browser", "api"]).perform w = .error unknown refused ∧
      refused.draft = w.draft ∧
      Drafting.enterScope "/admin" (.string "Admin") w = .ok () inner ∧ Body m ∧
      let ended := leftBy m inner.draft inner.journal
      let left := leftBy (Drafting.scope "/admin" (.string "Admin") m) w.draft w.journal
      (match m inner with
        | .error (.raised message) _ => some message
        | _ => none) = some "boom" ∧
        inner.draft.qualify "Log" = "Admin.Log" ∧ ended.pipes = ["browser", "auth"] ∧
        left.qualify "Log" = "Log" ∧ left.pipes = ["browser"] ∧
        left.entries = ended.entries ∧
        ended.entries.map (fun e => (e.path, e.pipes)) =
          [("/admin/users", ["browser", "auth"]), ("/admin/log", ["browser", "auth", "auth"])] := by
  -- A pipeline is unknown; then a body pipes through and adds in its scope and in one more, in
  -- which it raises a fault.
  let draft : Draft := {
    name := "App.Router"
    handlerSuffix := .string "Controller"
    pipelines := [("browser", []), ("auth", [])]
    current := { Frame.root with pipes := ["browser"] } }
  let w : Workshop := ⟨draft, .fresh none {} .epoch, []⟩
  let inner : Workshop :=
    match Drafting.enterScope "/admin" (.string "Admin") w with
    | .ok _ w | .error _ w => w
  let add (path handler : String) : Operation := .add "GET" path handler "index" .undefined
  let m : Drafting Outcome := do
    let _ ← (Operation.pipe ["auth"]).perform
    let _ ← (add "/users" "UserController").perform
    Drafting.scope "/" (.record []) do
      let _ ← (Operation.pipe ["auth"]).perform
      let _ ← Drafting.total
        (runBody false [.operation (add "log" "LogController"), .operation (add "/log" "Log")])
      (Operation.raise "boom").perform
  have body : Body m := by
    apply (Body.operate _).bind
    intro _
    apply (Body.operate _).bind
    intro _
    apply Body.scope
    apply (Body.operate _).bind
    intro _
    apply (runBody_isBody false _).bind
    intro _
    exact .operate _
  have refused : (Operation.pipe ["browser", "api"]).perform w =
      .error (.router (.pipelineUnknown "api")) w := rfl
  have opened : Drafting.enterScope "/admin" (.string "Admin") w = .ok () inner := by
    have opens : inner.draft.enclosing.length = 1 := by
      simp only [inner, w, draft]
      decide +kernel
    rcases Drafting.enterScope_cases "/admin" (.string "Admin") w with
      ⟨fault, journal, h⟩ | ⟨frame, journal, -, -, h⟩
    · simp only [inner, h] at opens
      cases opens
    · simp only [inner, h]
  obtain ⟨atomic, -, restored, -⟩ := scope_restoration w
  obtain ⟨left, -, -, -, pipes, qualify⟩ := restored opened body
  refine ⟨w, w, inner, _, m, refused, atomic refused, opened, body, ?_, ?_, ?_, ?_, ?_, ?_, ?_⟩
  · simp only [m, add, inner, w, draft]
    decide +kernel
  · simp only [inner, w, draft]
    decide +kernel
  · simp only [m, add, inner, w, draft]
    decide +kernel
  · rw [qualify]
    rfl
  · rw [pipes]
    rfl
  · rw [left]
  · simp only [m, add, inner, w, draft]
    decide +kernel

end ViewRouting.Session
