import ViewRouting.Proofs.Invariant
import ViewRouting.Proofs.Lexical.Places

/-! Drafts at sites. The scopes that are open where a draft has got to are kept beside it, each as
its caller opened it, while the moves of typed callers open, leave and pipe through. Every
reachable draft stands at such a site, and its frames are what the site says; only the moves tell
which site it is. -/

namespace ViewRouting.Lexical
open Router Live Session

def Site.outer (s : Site) : Site :=
  match s.around with
  | o :: rest => ⟨o, rest⟩
  | [] => s

/-- A draft, and the site that the moves from its start have brought it to. -/
inductive StandsAt : Site → Draft → Prop
  | start {name : String} {options : RouterOptions} {d : Draft} (typed : options.Typed)
      (started : Draft.start name options = .ok d) : StandsAt .root d
  | operate {s : Site} {d : Draft} {operation : Operation} (before : StandsAt s d)
      (journal : Trace.Journal) (typed : operation.Typed) :
      StandsAt (siteBehind s (.operation operation) ⟨d, journal⟩)
        (leftBy operation.perform d journal)
  | refused {s : Site} {d : Draft} {path : String} {options : Value} {journal : Trace.Journal}
      {fault : Fault} {left : Workshop} (before : StandsAt s d) (typed : options.IsScopeOptions)
      (refused : Drafting.enterScope path options ⟨d, journal⟩ = .error fault left) :
      StandsAt s left.draft
  | enter {s : Site} {d : Draft} {path : String} {options : Value} {journal : Trace.Journal}
      {o : Opening} {inner : Workshop} (before : StandsAt s d) (typed : options.IsScopeOptions)
      (read : Opening.read path options = .ok o)
      (entered : Drafting.enterScope path options ⟨d, journal⟩ = .ok () inner) :
      StandsAt (s.within o) inner.draft
  | leave {s : Site} {d : Draft} (before : StandsAt s d) (inside : s.around ≠ []) :
      StandsAt s.outer d.leave

theorem framesAround_eq_nil {os : List Opening} : Site.framesAround os = [] ↔ os = [] := by
  cases os <;> simp [Site.framesAround]

theorem Site.Formed.outer {s : Site} (h : s.Formed) : s.outer.Formed := by
  obtain ⟨here, _ | ⟨o, rest⟩⟩ := s
  · exact h
  · intro i hi
    apply h i
    simp only [Site.outer, Site.openings, List.mem_reverse] at hi ⊢
    exact List.mem_cons_of_mem here hi

theorem draft_leave (h : Heading) {s : Site} (l : Ledger) (inside : s.around ≠ []) :
    (s.draft h l).leave = s.outer.draft h l := by
  obtain ⟨here, _ | ⟨o, rest⟩⟩ := s
  · exact absurd rfl inside
  · rfl

theorem operate_draft (operation : Operation) (h : Heading) {s : Site}
    (formed : s.Formed) (l : Ledger) :
    let behind := siteBehind s (.operation operation) (s.workshop h l)
    behind.Formed ∧
      ∃ l', leftBy operation.perform (s.draft h l) l.journal = behind.draft h l' := by
  intro behind
  have read : behind = (readStep h s (.operation operation) l).2.1 :=
    siteBehind_readStep h formed _ l
  have ran := run_readStep h (.operation operation) formed l
  rw [run_operation, ← read] at ran
  obtain ⟨names, piped⟩ := readStep_site h s (.operation operation) l
  refine ⟨?_, (readStep h s (.operation operation) l).2.2, ?_⟩
  · rw [read, piped]
    exact formed.piping names
  · have left := leftBy_perform operation (s.workshop h l)
    rw [ran] at left
    exact left

theorem enter_draft {h : Heading} {s : Site} {l : Ledger} {path : String} {options : Value}
    {journal : Trace.Journal} {inner : Workshop}
    (entered : Drafting.enterScope path options ⟨s.draft h l, journal⟩ = .ok () inner) :
    ∃ o l', Opening.read path options = .ok o ∧ inner.draft = (s.within o).draft h l' := by
  have opened := enterScope_workshop h s path options { l with journal := journal }
  have workshop : s.workshop h { l with journal := journal } = ⟨s.draft h l, journal⟩ := rfl
  rw [workshop, entered] at opened
  cases ho : Reading.openScope h s path options { l with journal := journal } with
  | error fault l' =>
    rw [ho] at opened
    cases opened
  | ok o l' =>
    rw [ho] at opened
    cases opened
    exact ⟨o, l', read_of_openScope ho, rfl⟩

theorem StandsAt.draft {s : Site} {d : Draft} (standing : StandsAt s d) :
    s.Formed ∧ ∃ h l, d = s.draft h l := by
  induction standing with
  | @start name options d typed started =>
    let l : Ledger := { journal := ⟨.fresh none {} .epoch, []⟩ }
    refine ⟨Site.root_formed, ⟨name, options.handlerSuffix⟩, l, ?_⟩
    rw [start_ok started, Site.draft, Site.frame_root]
    rfl
  | @operate s d operation before journal typed ih =>
    obtain ⟨formed, h, l, rfl⟩ := ih
    obtain ⟨behind, l', left⟩ := operate_draft operation h formed { l with journal := journal }
    exact ⟨behind, h, l', left⟩
  | refused before typed refused ih =>
    rw [Drafting.enterScope_error refused]
    exact ih
  | enter before typed read entered ih =>
    obtain ⟨formed, h, l, rfl⟩ := ih
    obtain ⟨o, l', opened, inner⟩ := enter_draft entered
    cases opened.symm.trans read
    exact ⟨formed_within formed read, h, l', inner⟩
  | leave before inside ih =>
    obtain ⟨formed, h, l, rfl⟩ := ih
    exact ⟨formed.outer, h, l, draft_leave h l inside⟩

theorem StandsAt.reachable {s : Site} {d : Draft} (standing : StandsAt s d) : Reachable d := by
  induction standing with
  | start typed started => exact ⟨_, _, _, typed, started, .refl⟩
  | operate before journal typed ih => exact ih.move (.operate journal typed)
  | refused before typed refused ih =>
    rw [Drafting.enterScope_error refused]
    exact ih
  | @enter s d path options journal o inner before typed read entered ih =>
    have move := Move.enter (d := d) path journal typed
    rw [leftBy, entered] at move
    exact ih.move move
  | @leave s d before inside ih =>
    obtain ⟨-, h, l, rfl⟩ := before.draft
    have enclosed : (s.draft h l).enclosing ≠ [] := mt framesAround_eq_nil.mp inside
    exact ih.move (.leave ⟨.fresh none {} .epoch, []⟩ enclosed)

theorem move_stands {s : Site} {d d' : Draft} (standing : StandsAt s d) (move : Move d d') :
    ∃ s', StandsAt s' d' := by
  cases move with
  | operate journal typed => exact ⟨_, standing.operate journal typed⟩
  | @enter options path journal typed =>
    rw [leftBy]
    cases entered : Drafting.enterScope path options ⟨d, journal⟩ with
    | error fault left => exact ⟨s, standing.refused typed entered⟩
    | ok _ inner =>
      obtain ⟨-, h, l, rfl⟩ := standing.draft
      obtain ⟨o, -, read, -⟩ := enter_draft entered
      exact ⟨s.within o, standing.enter typed read entered⟩
  | leave journal inside =>
    rw [leftBy_leaveScope]
    refine ⟨s.outer, standing.leave ?_⟩
    obtain ⟨-, h, l, rfl⟩ := standing.draft
    exact mt framesAround_eq_nil.mpr inside

theorem reachable_iff_stands {d : Draft} : Reachable d ↔ ∃ s, StandsAt s d := by
  constructor
  · rintro ⟨name, options, start, typed, started, reached⟩
    induction reached with
    | refl => exact ⟨.root, .start typed started⟩
    | tail _ move ih =>
      obtain ⟨s, standing⟩ := ih
      exact move_stands standing move
  · rintro ⟨s, standing⟩
    exact standing.reachable

end ViewRouting.Lexical
