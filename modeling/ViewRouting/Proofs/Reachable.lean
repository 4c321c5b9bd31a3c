import Mathlib.Logic.Relation
import ViewRouting.Proofs.Drafting
import ViewRouting.Proofs.Typed

/-! Drafts that typed callers can bring about. A draft moves on by an operation, by a scope that is
opened and by one that is left, and a move that fails is a move as well. Programs make such moves
only, and they leave every scope that they open: there is always one to leave. -/

namespace ViewRouting.Session
open Router Live

/-- The draft that a step leaves, whether it fails or not. -/
def leftBy {α : Type} (step : Drafting α) (d : Draft) (journal : Trace.Journal) : Draft :=
  match step ⟨d, journal⟩ with
  | .ok _ w => w.draft
  | .error _ w => w.draft

inductive Move : Draft → Draft → Prop
  | operate {d : Draft} {operation : Operation} (journal : Trace.Journal)
      (typed : operation.Typed) :
      Move d (leftBy operation.perform d journal)
  | enter {d : Draft} {options : Value} (path : String) (journal : Trace.Journal)
      (typed : options.IsScopeOptions) :
      Move d (leftBy (Drafting.enterScope path options) d journal)
  | leave {d : Draft} (journal : Trace.Journal) (inside : d.enclosing ≠ []) :
      Move d (leftBy Drafting.leaveScope d journal)

abbrev Reaches : Draft → Draft → Prop :=
  Relation.ReflTransGen Move

/-- A draft on the way from a start that succeeded. -/
def Reachable (d : Draft) : Prop :=
  ∃ name options start, RouterOptions.Typed options ∧ Draft.start name options = .ok start ∧
    Reaches start d

theorem Reachable.move {d d' : Draft} (reachable : Reachable d) (move : Move d d') :
    Reachable d' := by
  obtain ⟨name, options, start, typed, started, reached⟩ := reachable
  exact ⟨name, options, start, typed, started, reached.tail move⟩

theorem leftBy_perform (operation : Operation) (w : Workshop) :
    leftBy operation.perform w.draft w.journal =
      (recorded operation.perform w).2.draft := by
  rw [leftBy, recorded]
  cases operation.perform ⟨w.draft, w.journal⟩ <;> rfl

theorem operate_effect (operation : Operation) (d : Draft)
    (journal : Trace.Journal) : Effect d operation (leftBy operation.perform d journal) := by
  have h := perform_effect operation ⟨d, journal⟩
  rwa [← leftBy_perform] at h

theorem leftBy_enterScope (path : String) (options : Value) (d : Draft) (journal : Trace.Journal) :
    leftBy (Drafting.enterScope path options) d journal = d ∨
      ∃ frame, d.current.enter path options = .ok frame ∧
        leftBy (Drafting.enterScope path options) d journal = d.into frame := by
  rw [leftBy]
  rcases Drafting.enterScope_cases path options ⟨d, journal⟩ with
    ⟨fault, journal, h⟩ | ⟨frame, journal, -, entered, h⟩
  · exact .inl (by rw [h])
  · exact .inr ⟨frame, entered, by rw [h]⟩

theorem leftBy_leaveScope (d : Draft) (journal : Trace.Journal) :
    leftBy Drafting.leaveScope d journal = d.leave := rfl

/-! What a program does to the stack. -/

/-- The same scopes are open, and the innermost one may have piped through more. -/
structure SameScopes (d d' : Draft) : Prop where
  enclosing : d'.enclosing = d.enclosing
  current : ∃ names, d'.current = { d.current with pipes := d.current.pipes ++ names }

namespace SameScopes

protected theorem refl (d : Draft) : SameScopes d d :=
  ⟨rfl, [], by rw [List.append_nil]⟩

protected theorem trans {d d' d'' : Draft} (first : SameScopes d d') (next : SameScopes d' d'') :
    SameScopes d d'' := by
  obtain ⟨names, hc⟩ := first.current
  obtain ⟨more, hn⟩ := next.current
  refine ⟨next.enclosing.trans first.enclosing, names ++ more, ?_⟩
  rw [hn, hc, List.append_assoc]

theorem leave {d d' : Draft} {frame : Frame}
    (same : SameScopes (d.into frame) d') :
    d'.enclosing ≠ [] ∧ SameScopes d d'.leave := by
  have h : d'.enclosing = d.current :: d.enclosing := same.enclosing
  rw [Draft.leave, h]
  refine ⟨List.cons_ne_nil _ _, rfl, [], ?_⟩
  rw [List.append_nil]

end SameScopes

theorem Effect.sameScopes {d d' : Draft} {operation : Operation}
    (h : Effect d operation d') : SameScopes d d' := by
  cases h with
  | pipe unfinished known => exact ⟨rfl, _, rfl⟩
  | still => exact .refl _
  | pipeline | add | register | finish => exact ⟨rfl, [], by rw [List.append_nil]⟩

theorem scopeOutcome_draft (r : Report) (w : Workshop) :
    (scopeOutcome (.ok r w)).2 = w := by
  rcases r with ⟨outcomes, _ | fault⟩ <;> rfl

mutual
theorem run_reaches (step : Step) (typed : step.Typed) (w : Workshop) :
    Reaches w.draft (step.run w).2.draft ∧ SameScopes w.draft (step.run w).2.draft := by
  cases step with
  | operation operation =>
    rw [Step.run, ← leftBy_perform]
    rw [Step.Typed] at typed
    exact ⟨.single (.operate w.journal typed),
      (operate_effect operation w.draft w.journal).sameScopes⟩
  | scope path options propagate body =>
    rw [Step.Typed] at typed
    rw [Step.run, Drafting.scope_run]
    rcases Drafting.enterScope_cases path options w with
      ⟨fault, journal, h⟩ | ⟨frame, journal, -, -, h⟩
    · rw [h]
      exact ⟨.refl, .refl _⟩
    · have entered : Move w.draft (w.draft.into frame) := by
        have enter := Move.enter (d := w.draft) path w.journal typed.1
        rwa [leftBy, h] at enter
      have body := runBody_reaches propagate body typed.2 ⟨w.draft.into frame, journal⟩
      obtain ⟨inside, same⟩ := body.2.leave
      simp only [h, Drafting.total]
      rw [scopeOutcome_draft]
      exact ⟨(body.1.head entered).tail (.leave journal inside), same⟩

theorem runBody_reaches (propagate : Bool) (steps : List Step) (typed : BodyTyped steps)
    (w : Workshop) :
    Reaches w.draft (runBody propagate steps w).2.draft ∧
      SameScopes w.draft (runBody propagate steps w).2.draft := by
  cases steps with
  | nil => exact ⟨.refl, .refl _⟩
  | cons step rest =>
    rw [BodyTyped] at typed
    have first := run_reaches step typed.1 w
    have next := runBody_reaches propagate rest typed.2 (step.run w).2
    simp only [runBody]
    split
    · exact first
    · exact ⟨first.1.trans next.1, first.2.trans next.2⟩
end

end ViewRouting.Session
