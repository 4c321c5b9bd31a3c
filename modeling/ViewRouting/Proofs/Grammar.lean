import ViewRouting.Proofs.Description

/-! The grammar of the options of a live route, rule by rule. A value is accepted where it obeys
every rule. Several may be broken at once; then the first of them in a fixed order is reported, with
the names that are not known or the value that is no helper name. -/

namespace ViewRouting.Live
open Naming

def HasForm (first rest : Char → Prop) (s : String) : Prop :=
  ∃ c cs, s.toList = c :: cs ∧ first c ∧ ∀ d ∈ cs, rest d

def TagForm : String → Prop :=
  HasForm (fun c => c.isLower) fun c => c.isLower ∨ c.isDigit ∨ c = '-'

def HelperForm : String → Prop :=
  HasForm (fun c => c.isLower ∨ c = '_') fun c => c.isLower ∨ c.isDigit ∨ c = '_'

inductive OptionRule where
  | plain
  | known
  | session
  | layout
  | tag
  | attributes
  | helper
  deriving DecidableEq, Repr

namespace OptionRule

/-- The order in which broken rules are reported. -/
def order : List OptionRule :=
  [plain, known, session, layout, tag, attributes, helper]

def IsPlain (v : Value) : Prop :=
  ∃ kind fields, v = .object kind fields

/-- What a rule says of a value, which is read as a bag by the rules behind the first. A field may
be left out or be undefined. -/
def Obeyed (v : Value) : OptionRule → Prop
  | plain => IsPlain v
  | known => ∀ name ∈ v.ownFields.names, name ∈ ["session", "layout", "container", "as"]
  | session => Value.Optional IsPlain v.ownFields "session"
  | layout => Value.Optional (fun w => ∃ view template,
      w = .array [.string view, .string template] ∧ isDotted view ∧ template ≠ "")
      v.ownFields "layout"
  | tag => Value.Optional (fun w => ∃ name attributes, w = .array [.string name, attributes] ∧
      TagForm name) v.ownFields "container"
  | attributes => ∀ name given, Value.field v.ownFields "container" = .array [name, given] →
      ∃ kind fields, given = .object kind fields ∧ ∀ a ∈ fields, a.2.IsText
  | helper => Value.Optional (fun w => ∃ s, w = .string s ∧ HelperForm s) v.ownFields "as"

def fault (view : String) (v : Value) : OptionRule → LiveFault
  | plain => .optionsNotPlain view
  | known => .optionsUnknown view (v.ownFields.names.filter fun name => !optionNames.contains name)
  | session => .sessionNotMap view
  | layout => .layoutNotPair view
  | tag => .containerTagInvalid view
  | attributes => .containerAttributesInvalid view
  | helper => .helperNotSnakeCase view (Value.field v.ownFields "as").shown

/-- The rule is broken, and those before it are obeyed. -/
def FirstBroken (v : Value) (rule : OptionRule) : Prop :=
  ∃ before after, order = before ++ rule :: after ∧ (∀ r ∈ before, r.Obeyed v) ∧ ¬rule.Obeyed v

/-! The rules as they are checked. -/

def isTagged : Value → Bool
  | .array [.string name, _] => isTag name
  | _ => false

def hasTextAttributes : Value → Bool
  | .array [_, given] => isTextMap given
  | _ => true

def isHelperText (v : Value) : Bool :=
  (v.asString?.filter isHelper).isSome

def holds (v : Value) : OptionRule → Bool
  | plain => v.plainFields?.isSome
  | known => v.ownFields.names.all optionNames.contains
  | session => (Value.present? v.ownFields "session").all fun w => w.plainFields?.isSome
  | layout => (Value.present? v.ownFields "layout").all isLayout
  | tag => (Value.present? v.ownFields "container").all isTagged
  | attributes => (Value.present? v.ownFields "container").all hasTextAttributes
  | helper => (Value.present? v.ownFields "as").all isHelperText

theorem present?_all {fields : Record Value} {name : String} {test : Value → Bool}
    {shape : Value → Prop} (same : ∀ w, test w ↔ shape w) :
    (Value.present? fields name).all test ↔ Value.Optional shape fields name := by
  rw [Value.present?, Value.Optional]
  cases Value.field fields name <;> simp [Value.defined?, same]

theorem present?_getD (fields : Record Value) (name : String) :
    (Value.present? fields name).getD .undefined = Value.field fields name := by
  rw [Value.present?]
  cases Value.field fields name <;> rfl

theorem isTag_iff {s : String} : isTag s ↔ TagForm s := by
  rw [isTag, TagForm, HasForm]
  cases s.toList <;> simp [or_assoc]

theorem isHelper_form {s : String} : isHelper s ↔ HelperForm s := by
  simp [isHelper_iff, HelperForm, HasForm, isHelperChar, or_assoc]

theorem isTagged_iff {v : Value} :
    isTagged v ↔ ∃ name attributes, v = .array [.string name, attributes] ∧ TagForm name := by
  unfold isTagged
  split
  · simp [isTag_iff]
  · next other =>
    simp only [Bool.false_eq_true, false_iff]
    rintro ⟨name, attributes, rfl, -⟩
    exact other name attributes rfl

theorem hasTextAttributes_iff {v : Value} :
    hasTextAttributes v ↔ ∀ name given, v = .array [name, given] →
      ∃ kind fields, given = .object kind fields ∧ ∀ a ∈ fields, a.2.IsText := by
  unfold hasTextAttributes
  split
  · simp [isTextMap_iff]
  · next other =>
    simp only [true_iff]
    rintro name given rfl
    exact absurd rfl (other name given)

theorem isHelperText_iff {v : Value} : isHelperText v ↔ ∃ s, v = .string s ∧ HelperForm s := by
  simp only [← isHelper_form, isHelperText]
  cases v <;> simp [Value.asString?]

theorem holds_iff {v : Value} (rule : OptionRule) : rule.holds v ↔ rule.Obeyed v := by
  cases rule with
  | plain => exact isPlain_iff
  | known => simp [holds, Obeyed, optionNames]
  | session => exact present?_all fun _ => isPlain_iff
  | layout => exact present?_all fun _ => isLayout_iff
  | tag => exact present?_all fun _ => isTagged_iff
  | attributes =>
    rw [Obeyed, ← hasTextAttributes_iff, holds, Value.present?]
    cases Value.field v.ownFields "container" <;> rfl
  | helper => exact present?_all fun _ => isHelperText_iff

theorem firstBroken_iff {v : Value} {rule : OptionRule} :
    rule.FirstBroken v ↔ order.find? (fun rule => !rule.holds v) = some rule := by
  rw [List.find?_eq_some_iff_append]
  simp only [FirstBroken, ← holds_iff]
  constructor
  · rintro ⟨before, after, split, obeyed, broken⟩
    exact ⟨by simpa using broken, before, after, split, by simpa using obeyed⟩
  · rintro ⟨broken, before, after, split, obeyed⟩
    exact ⟨before, after, split, by simpa using obeyed, by simpa using broken⟩

end OptionRule

open OptionRule

def OptionRule.check (view : String) (v : Value) (rule : OptionRule) : Except Fault Unit :=
  if rule.holds v then .ok () else .error (.live (rule.fault view v))

theorem check_forM (view : String) (v : Value) (rules : List OptionRule) :
    rules.forM (check view v) =
      match rules.find? fun rule => !rule.holds v with
      | none => .ok ()
      | some rule => .error (.live (rule.fault view v)) := by
  induction rules with
  | nil => rfl
  | cons rule rest ih =>
    have step : (rule :: rest).forM (check view v) =
      check view v rule >>= fun _ => rest.forM (check view v) := rfl
    rw [step, ih, check, List.find?_cons]
    cases rule.holds v <;> rfl

section Failing
variable {ε : Type} (cause : ε → Fault)

theorem mapError_test (b : Bool) (e : ε) :
    (if b then .ok () else .error e : Except ε Unit).mapError cause =
      if b then .ok () else .error (cause e) := by
  cases b <;> rfl

theorem mapError_seq (x y : Except ε Unit) :
    (x >>= fun _ => y).mapError cause = x.mapError cause >>= fun _ => y.mapError cause := by
  cases x <;> rfl

end Failing

/-! Every check of the options is the check of a rule, that of a container of two. -/

section Checks
variable (view : String) (kind : ObjectKind) (bag : Record Value)

theorem check_known :
    check view (.object kind bag) known =
      if (Record.names bag).filter (fun name => !optionNames.contains name) != [] then
        .error (.live (known.fault view (.object kind bag)))
      else .ok () := by
  have same : known.holds (.object kind bag) =
      !((Record.names bag).filter (fun name => !optionNames.contains name) != []) := by
    rw [Bool.eq_iff_iff]
    simp [holds, Value.ownFields]
  rw [check, same]
  cases (Record.names bag).filter (fun name => !optionNames.contains name) != [] <;> rfl

theorem check_session :
    (requireSession view (Value.present? bag "session")).mapError .live =
      check view (.object kind bag) session := by
  have test (o : Option Value) : requireSession view o =
      if o.all fun w => w.plainFields?.isSome then .ok () else .error (.sessionNotMap view) := by
    cases o <;> rfl
  rw [test, mapError_test]
  rfl

theorem check_layout :
    (requireLayout view (Value.present? bag "layout")).mapError .live =
      check view (.object kind bag) layout := by
  have test (o : Option Value) : requireLayout view o =
      if o.all isLayout then .ok () else .error (.layoutNotPair view) := by
    cases o <;> rfl
  rw [test, mapError_test]
  rfl

theorem requireContainer_eq (o : Option Value) :
    requireContainer view o =
      (if o.all isTagged then .ok () else .error (.containerTagInvalid view)) >>= fun _ =>
        if o.all hasTextAttributes then .ok () else .error (.containerAttributesInvalid view) := by
  unfold requireContainer
  split
  · rfl
  · next name given =>
    have tagged : isTagged (.array [.string name, given]) = isTag name := rfl
    have attributed : hasTextAttributes (.array [.string name, given]) = isTextMap given := rfl
    rw [Option.all_some, Option.all_some, tagged, attributed]
    cases isTag name <;> rfl
  · next container other =>
    have untagged : isTagged container = false := by
      unfold isTagged
      split
      · next name given => exact (other name given rfl).elim
      · rfl
    rw [Option.all_some, untagged]
    rfl

theorem check_container :
    (requireContainer view (Value.present? bag "container")).mapError .live =
      check view (.object kind bag) tag >>= fun _ => check view (.object kind bag) attributes := by
  rw [requireContainer_eq, mapError_seq, mapError_test, mapError_test]
  rfl

theorem check_helper (plain : (Value.object kind bag).holdsBigint = false) :
    requireHelper view (Value.present? bag "as") = check view (.object kind bag) helper := by
  rw [check, holds, fault, Value.ownFields, ← present?_getD]
  cases given : Value.present? bag "as" with
  | none => rfl
  | some w =>
    have shown : w.display = .ok w.shown := by
      have small : w.holdsBigint = false := by
        by_contra big
        rw [holdsBigint_present given (by simpa using big)] at plain
        cases plain
      rw [Value.display, small]
      rfl
    rw [requireHelper, shown]
    rfl

theorem requireOptions_rules {v : Value} (plain : v.holdsBigint = false) :
    requireOptions view v = order.forM (check view v) >>= fun _ => .ok v.ownFields := by
  cases v with
  | object kind bag =>
    have rules : order.forM (check view (.object kind bag)) =
        (check view (.object kind bag) known >>= fun _ =>
          check view (.object kind bag) session >>= fun _ =>
          check view (.object kind bag) layout >>= fun _ =>
          check view (.object kind bag) tag >>= fun _ =>
          check view (.object kind bag) attributes >>= fun _ =>
          check view (.object kind bag) helper >>= fun _ => .ok ()) := rfl
    rw [requireOptions, Value.plainFields?, rules, check_known]
    simp only [check_session view kind, check_layout view kind, check_container view kind,
      check_helper view kind bag plain]
    split
    · rfl
    · simp only [bind_assoc]
      rfl
  | _ => rfl

end Checks

/-- A value is accepted for the options of a live route if it obeys every rule, and else it is
refused with the report on the first rule that it breaks. -/
theorem options_grammar (view : String) {v : Value} (plain : v.holdsBigint = false) :
    ((∃ bag, requireOptions view v = .ok bag) ↔ ∀ rule : OptionRule, rule.Obeyed v) ∧
      ∀ fault, requireOptions view v = .error fault ↔
        ∃ rule : OptionRule, rule.FirstBroken v ∧ fault = .live (rule.fault view v) := by
  have decided := requireOptions_rules view plain
  rw [check_forM] at decided
  cases found : order.find? fun rule => !rule.holds v with
  | none =>
    rw [found] at decided
    have obeyed : ∀ rule : OptionRule, rule.Obeyed v := by
      intro rule
      have every := List.find?_eq_none.mp found rule (by cases rule <;> decide)
      exact (holds_iff rule).mp (by simpa using every)
    refine ⟨⟨fun _ => obeyed, fun _ => ⟨_, decided⟩⟩, fun fault => ⟨?_, ?_⟩⟩
    · intro failed
      cases decided.symm.trans failed
    · rintro ⟨rule, broken, -⟩
      cases found.symm.trans (firstBroken_iff.mp broken)
  | some first =>
    rw [found] at decided
    have broken := firstBroken_iff.mpr found
    refine ⟨⟨?_, ?_⟩, fun fault => ⟨?_, ?_⟩⟩
    · rintro ⟨bag, passed⟩
      cases decided.symm.trans passed
    · intro obeyed
      obtain ⟨-, -, -, -, wrong⟩ := broken
      exact absurd (obeyed first) wrong
    · intro failed
      cases decided.symm.trans failed
      exact ⟨first, broken, rfl⟩
    · rintro ⟨rule, other, rfl⟩
      cases found.symm.trans (firstBroken_iff.mp other)
      exact decided

theorem options_grammar_layout :
    let v : Value := .record [("as", .string "Clock"),
      ("container", .array [.string "DIV", .record []]),
      ("layout", .array [.string "App.LayoutView", .string ""])]
    v.holdsBigint = false ∧ (¬∃ bag, requireOptions "ClockLive" v = .ok bag) ∧
      requireOptions "ClockLive" v = .error (.live (.layoutNotPair "ClockLive")) := by
  intro v
  have plain : v.holdsBigint = false := rfl
  obtain ⟨accepted, refused⟩ := options_grammar "ClockLive" plain
  have first : OptionRule.layout.FirstBroken v := firstBroken_iff.mpr (by decide)
  obtain ⟨-, -, -, -, broken⟩ := id first
  exact ⟨plain, fun passed => broken (accepted.mp passed .layout),
    (refused _).mpr ⟨.layout, first, rfl⟩⟩

end ViewRouting.Live
