import ViewRouting.Proofs.Description

/-! How options are refused. Any value may be given for options, and what is wrong with it is
reported with the view that it was given for. The report on a helper shows the value that was given,
and a value in which a big integer stands cannot be shown: with such a helper, in a bag that is right
in everything else, the check breaks off with no report at all. -/

namespace ViewRouting.Live

/-- A bag in which everything but the helper follows the grammar. -/
structure RegularButHelper (bag : Record Value) : Prop where
  known : ∀ name ∈ bag.names, name ∈ optionNames
  session : ∀ v, Value.present? bag "session" = some v → ∃ kind fields, v = .object kind fields
  layout : ∀ v, Value.present? bag "layout" = some v → IsOwnLayout v
  container : ∀ v, Value.present? bag "container" = some v → IsOwnContainer v

theorem grammatical_iff {bag : Record Value} :
    Grammatical bag ↔ RegularButHelper bag ∧
      ∀ v, Value.present? bag "as" = some v → ∃ s, v = .string s ∧ Naming.isHelper s :=
  ⟨fun h => ⟨⟨h.known, h.session, h.layout, h.container⟩, h.helper⟩,
    fun h => ⟨h.1.known, h.1.session, h.1.layout, h.1.container, h.2⟩⟩

/-- Options that are refused for a helper that cannot be shown. -/
def HasUnshowableHelper (v : Value) : Prop :=
  ∃ kind bag helper, v = .object kind bag ∧ RegularButHelper bag ∧
    Value.present? bag "as" = some helper ∧ helper.holdsBigint

def requireOthers (view : String) (bag : Record Value) : Except Fault Unit := do
  let unknown := bag.names.filter fun name => !optionNames.contains name
  if unknown != [] then throw (.live (.optionsUnknown view unknown))
  (requireSession view (Value.present? bag "session")).mapError .live
  (requireLayout view (Value.present? bag "layout")).mapError .live
  (requireContainer view (Value.present? bag "container")).mapError .live

section Checks
variable (view : String) (kind : ObjectKind) (bag : Record Value)

theorem requireOptions_object :
    requireOptions view (.object kind bag) = (do
      requireOthers view bag
      requireHelper view (Value.present? bag "as")
      return bag) := by
  simp only [requireOptions, requireOthers, Value.plainFields?]
  split <;> simp [bind_assoc]

theorem requireOthers_guards {raises : Fault → Prop} (raised : ComplainsOfOptions view raises) :
    Guards (requireOthers view bag) raises (RegularButHelper bag) := by
  have right : RegularButHelper bag ↔
      (((Record.names bag).filter fun name => !optionNames.contains name) != []) = false ∧
        (∀ v, Value.present? bag "session" = some v → ∃ kind fields, v = .object kind fields) ∧
        (∀ v, Value.present? bag "layout" = some v → IsOwnLayout v) ∧
        (∀ v, Value.present? bag "container" = some v → IsOwnContainer v) := by
    constructor
    · rintro ⟨known, session, layout, container⟩
      exact ⟨by simpa using known, session, layout, container⟩
    · rintro ⟨known, session, layout, container⟩
      exact ⟨by simpa using known, session, layout, container⟩
  rw [right, requireOthers]
  refine .refuse rfl (raised _ rfl rfl) ?_
  exact (requireSession_guards raised _).bind fun _ _ =>
    (requireLayout_guards raised _).bind fun _ _ => requireContainer_guards raised _

theorem requireHelper_unshowable {helper : Value} (big : helper.holdsBigint) :
    requireHelper view (some helper) = .error .unserializable := by
  have other : helper.asString? = none := by
    cases helper <;> first | rfl | cases big
  simp [requireHelper, other, Value.display, big, bind, Except.bind]

end Checks

def ReportsOptions (view : String) (fault : Fault) : Prop :=
  ∃ cause : LiveFault, fault = .live cause ∧ cause.code = "LIVE_INVALID_OPTION" ∧
    cause.view? = some view

theorem requireOptions_guards_reports (view : String) (v : Value) :
    Guards (requireOptions view v)
      (fun fault => ReportsOptions view fault ∨ fault = .unserializable ∧ HasUnshowableHelper v)
      (IsOptions v) := by
  cases v with
  | object kind bag =>
    have right : IsOptions (.object kind bag) ↔ RegularButHelper bag ∧
        (∀ v, Value.present? bag "as" = some v → ∃ s, v = .string s ∧ Naming.isHelper s) ∧
        True := by
      rw [and_true, ← grammatical_iff]
      constructor
      · rintro ⟨_, _, h, grammatical⟩
        cases h
        exact grammatical
      · exact fun grammatical => ⟨kind, bag, rfl, grammatical⟩
    have raised : ComplainsOfOptions view fun fault =>
        ReportsOptions view fault ∨ fault = .unserializable ∧
          HasUnshowableHelper (.object kind bag) :=
      fun cause code about => .inl ⟨cause, rfl, code, about⟩
    have others := requireOthers_guards view bag raised
    rw [right, requireOptions_object]
    apply others.bind
    intro _ passed
    have regular := others.right_of_ok passed
    exact (requireHelper_guards raised fun helper given big =>
      .inr ⟨rfl, kind, bag, helper, rfl, regular, given, big⟩).bind fun _ _ => .pure bag
  | _ =>
    refine ⟨?_, fun _ => ⟨_, rfl, .inl ⟨.optionsNotPlain view, rfl, rfl, rfl⟩⟩⟩
    rintro ⟨kind, bag, h, -⟩
    cases h

theorem requireOptions_unshowable (view : String) {v : Value} (h : HasUnshowableHelper v) :
    requireOptions view v = .error .unserializable := by
  obtain ⟨kind, bag, helper, rfl, regular, given, big⟩ := h
  have others : Guards (requireOthers view bag) (fun _ => True) (RegularButHelper bag) :=
    requireOthers_guards view bag fun _ _ _ => trivial
  obtain ⟨_, passed⟩ := others.passes regular
  rw [requireOptions_object, passed, given, requireHelper_unshowable view big]
  rfl

/-- Whatever is given for options, and for whatever view, it is accepted, or it is refused with a
report that carries the view, unless it has a helper that cannot be shown and nothing else is wrong
with it: then, and only then, there is no report. -/
theorem options_refusal (view : String) (v : Value) :
    ((∃ bag, requireOptions view v = .ok bag) ↔ IsOptions v) ∧
      (requireOptions view v = .error .unserializable ↔ HasUnshowableHelper v) ∧
      ((∃ bag, requireOptions view v = .ok bag) ∨
        requireOptions view v = .error .unserializable ∨
        ∃ fault, requireOptions view v = .error fault ∧ ReportsOptions view fault) := by
  have guards := requireOptions_guards_reports view v
  refine ⟨⟨fun ⟨_, passed⟩ => guards.right_of_ok passed, guards.passes⟩,
    ⟨?_, requireOptions_unshowable view⟩, ?_⟩
  · intro broke
    by_cases right : IsOptions v
    · obtain ⟨_, passed⟩ := guards.passes right
      cases passed.symm.trans broke
    · obtain ⟨fault, failed, raised⟩ := guards.fails right
      cases failed.symm.trans broke
      rcases raised with ⟨cause, h, -⟩ | ⟨-, unshowable⟩
      · cases h
      · exact unshowable
  · by_cases right : IsOptions v
    · exact .inl (guards.passes right)
    · obtain ⟨fault, failed, raised⟩ := guards.fails right
      rcases raised with reports | ⟨rfl, -⟩
      · exact .inr (.inr ⟨fault, failed, reports⟩)
      · exact .inr (.inl failed)

/-- A big integer for a helper. -/
theorem bigint_helper_unreported :
    let v : Value := .record [("as", .bigint 12)]
    requireOptions "ClockLive" v = .error .unserializable ∧
      ¬((∃ bag, requireOptions "ClockLive" v = .ok bag) ∨
        ∃ fault, requireOptions "ClockLive" v = .error fault ∧
          ReportsOptions "ClockLive" fault) := by
  intro v
  have broke : requireOptions "ClockLive" v = .error .unserializable := rfl
  refine ⟨broke, ?_⟩
  rintro (⟨bag, passed⟩ | ⟨fault, failed, cause, rfl, -⟩)
  · cases broke.symm.trans passed
  · cases broke.symm.trans failed

end ViewRouting.Live
