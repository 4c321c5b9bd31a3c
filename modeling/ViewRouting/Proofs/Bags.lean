import ViewRouting.Proofs.Acceptance
import ViewRouting.Proofs.Overlays

/-! Options bags in the place of an action. Such a bag is laid under the bag that follows, and only
what comes out is checked. So an option that is there but undefined is no option, except where it
covers the same option of the bag below; and a value that is no object has nothing left to be
refused for when it is laid under another one, although it is refused in the place of the options.
-/

namespace ViewRouting.Record

variable {α : Type}

theorem filter_distinct {r : Record α} (h : Distinct r) (keeps : String × α → Bool) :
    Distinct (r.filter keeps) :=
  (List.Sublist.map _ List.filter_sublist).nodup h

theorem mem_names_filter {r : Record α} {keeps : String × α → Bool} {k : String}
    (h : k ∈ names (r.filter keeps)) : k ∈ names r :=
  (List.Sublist.map _ List.filter_sublist).subset h

theorem get?_filter {r : Record α} (h : Distinct r) (keeps : String × α → Bool) (k : String) :
    get? (r.filter keeps) k = (get? r k).filter fun v => keeps (k, v) := by
  induction r with
  | nil => rfl
  | cons f r ih =>
    obtain ⟨name, v⟩ := f
    obtain ⟨new, rest⟩ := List.nodup_cons.mp h
    rw [List.filter_cons, get?_cons]
    by_cases hk : k = name
    · have absent : get? (r.filter keeps) name = none :=
        get?_eq_none fun member => new (mem_names_filter member)
      cases hf : keeps (name, v) <;> simp [hk, hf, get?_cons, absent, Option.filter]
    · cases keeps (name, v) <;> simp [hk, get?_cons, ih rest]

theorem mem_names_overlay {outer inner : Record α} (ho : Distinct outer) (hi : Distinct inner)
    {k : String} : k ∈ names (overlay outer inner) ↔ k ∈ names outer ∨ k ∈ names inner := by
  rw [← get?_isSome, get?_overlay ho hi, Option.isSome_or, Bool.or_eq_true, get?_isSome,
    get?_isSome, or_comm]

theorem mem_names_ofList {r : Record α} {k : String} : k ∈ names (ofList r) ↔ k ∈ names r := by
  have reversed : k ∈ names r.reverse ↔ k ∈ names r := by
    rw [names, List.map_reverse, List.mem_reverse, names]
  have found : get? (ofList r) k = get? r.reverse k := by
    rw [ofList, get?_insertAll]
    exact Option.or_none
  rw [← get?_isSome, found, get?_isSome, reversed]

end ViewRouting.Record

namespace ViewRouting.Live
open Naming Router Session

variable {c : Conventions} {host : Host} {path view : String} {action : Option Value}

/-! What a statement does with its options. -/

theorem describe_congr {o o' : Value}
    (same : requireOptions view (o.orElse (.record [])) =
      requireOptions view (o'.orElse (.record []))) :
    describe c host ⟨path, view, action, o⟩ = describe c host ⟨path, view, action, o'⟩ := by
  rw [describe_eq, describe_eq, same]
  rfl

theorem register_congr {d d' : Declaration} {w : Workshop}
    (same : describe c (.ofDraft w.draft) d = describe c (.ofDraft w.draft) d') :
    register c d w = register c d' w := by
  simp only [register, bind_run, describeIn_run, same]

theorem register_refused {d : Declaration} {w : Workshop} {fault : Fault}
    (refused : describe c (.ofDraft w.draft) d = .error fault) :
    register c d w = .error fault w := by
  simp only [register, bind_run, describeIn_run, refused]

theorem register_error {d : Declaration} {w left : Workshop} {fault : Fault}
    (failed : register c d w = .error fault left) : left.draft = w.draft := by
  rcases register_cases c d w with ⟨_, _, h⟩ | ⟨_, _, _, -, -, h⟩
  · cases h.symm.trans failed
    rfl
  · cases h.symm.trans failed

theorem describe_undotted (undotted : isDotted view = false) (o : Value) :
    describe c host ⟨path, view, action, o⟩ = .error (.live (.viewNotDotted view)) := by
  simp only [describe_eq, requireView, undotted]
  rfl

theorem describe_misfit (dotted : isDotted view) {o : Value} {fault : Fault}
    (misfit : requireOptions view (o.orElse (.record [])) = .error fault) :
    describe c host ⟨path, view, action, o⟩ = .error fault := by
  simp only [describe_eq, requireView, dotted, if_true, misfit]
  rfl

theorem requireOptions_known {kind : ObjectKind} {bag : Record Value}
    (known : ∀ name ∈ Record.names bag, name ∈ optionNames) :
    requireOptions view (.object kind bag) = (do
      (requireSession view (Value.present? bag "session")).mapError .live
      (requireLayout view (Value.present? bag "layout")).mapError .live
      (requireContainer view (Value.present? bag "container")).mapError .live
      requireHelper view (Value.present? bag "as")
      return bag) := by
  have none : ((Record.names bag).filter fun name => !optionNames.contains name) = [] := by
    simpa using known
  simp only [requireOptions, Value.plainFields?, none, bne_self_eq_false, Bool.false_eq_true,
    if_false]

theorem describe_fields {kind kind' : ObjectKind} {bag bag' : Record Value}
    (known : ∀ name ∈ Record.names bag, name ∈ optionNames)
    (known' : ∀ name ∈ Record.names bag', name ∈ optionNames)
    (same : ∀ name, Value.field bag name = Value.field bag' name) :
    describe c host ⟨path, view, action, .object kind bag⟩ =
      describe c host ⟨path, view, action, .object kind' bag'⟩ := by
  have present (name : String) : Value.present? bag name = Value.present? bag' name := by
    rw [Value.present?, same, Value.present?]
  have merged : RouteOptions.merge host.inherited bag = RouteOptions.merge host.inherited bag' := by
    simp only [RouteOptions.merge, RouteOptions.inForce, GroupOptions.sessionOf, same, present]
  have described (helper : Observed Value) :
      described c host ⟨path, view, action, .object kind bag⟩ bag helper =
        described c host ⟨path, view, action, .object kind' bag'⟩ bag' helper := by
    simp only [described, merged]
  have given (kind : ObjectKind) (bag : Record Value) :
      (Value.object kind bag).orElse (.record []) = .object kind bag := rfl
  simp only [describe_eq, given, requireOptions_known known, requireOptions_known known',
    bind_assoc, pure_bind, present, described]

/-! A bag in the place of the action, under another bag. -/

/-- A bag as a typed caller writes it; options may be undefined. -/
structure IsBag (bag : Record Value) : Prop where
  known : ∀ name ∈ Record.names bag, name ∈ optionNames
  distinct : Record.Distinct bag

def definedFields (bag : Record Value) : Record Value :=
  bag.filter fun f => f.2.defined?.isSome

/-- The fields that are not covered by an undefined one of the bag above. -/
def uncovered (bag above : Record Value) : Record Value :=
  bag.filter fun f =>
    match Record.get? above f.1 with
    | some .undefined => false
    | _ => true

theorem IsBag.filter {bag : Record Value} (h : IsBag bag) (keeps : String × Value → Bool) :
    IsBag (bag.filter keeps) where
  known _ hn := h.known _ (Record.mem_names_filter hn)
  distinct := Record.filter_distinct h.distinct keeps

theorem IsBag.defined {bag : Record Value} (h : IsBag bag) : IsBag (definedFields bag) :=
  h.filter _

theorem IsBag.uncovered {bag : Record Value} (h : IsBag bag) (above : Record Value) :
    IsBag (uncovered bag above) :=
  h.filter _

theorem IsBag.overlay {bag above : Record Value} (h : IsBag bag) (h' : IsBag above) :
    IsBag (Record.overlay bag above) where
  known _ hn := ((Record.mem_names_overlay h.distinct h'.distinct).mp hn).elim (h.known _)
    (h'.known _)
  distinct := Record.overlay_distinct bag above

theorem get?_definedFields {bag : Record Value} (h : Record.Distinct bag) (name : String) :
    Record.get? (definedFields bag) name = (Record.get? bag name).bind Value.defined? := by
  rw [definedFields, Record.get?_filter h]
  cases Record.get? bag name with
  | none => rfl
  | some v => cases v <;> rfl

theorem get?_uncovered {bag above : Record Value} (h : Record.Distinct bag) (name : String) :
    Record.get? (uncovered bag above) name =
      match Record.get? above name with
      | some .undefined => none
      | _ => Record.get? bag name := by
  rw [uncovered, Record.get?_filter h]
  cases Record.get? bag name with
  | none => cases Record.get? above name with
    | none => rfl
    | some v => cases v <;> rfl
  | some v =>
    simp only [Option.filter_some]
    cases Record.get? above name with
    | none => rfl
    | some v => cases v <;> rfl

theorem uncovered_nil (bag : Record Value) : uncovered bag [] = bag :=
  List.filter_eq_self.mpr fun _ _ => rfl

/-- No option of the bag is covered by an undefined one, unless it is undefined itself. -/
def Uncovered (bag above : Record Value) : Prop :=
  ∀ name, Record.get? above name = some .undefined →
    (Record.get? bag name).bind Value.defined? = none

theorem get?_cleared {bag above : Record Value} (h : IsBag bag) (apart : Uncovered bag above)
    (name : String) :
    Record.get? (definedFields (uncovered bag above)) name =
      Record.get? (definedFields bag) name := by
  rw [get?_definedFields (h.uncovered above).distinct, get?_definedFields h.distinct,
    get?_uncovered h.distinct]
  split
  · next covered => exact (apart name covered).symm
  · rfl

theorem field_overlay {bag above : Record Value} (h : IsBag bag) (h' : IsBag above)
    (name : String) :
    Value.field (Record.overlay bag above) name =
      ((Record.get? above name).or (Record.get? bag name)).getD .undefined := by
  rw [Value.field, Record.get?_overlay h.distinct h'.distinct]

theorem field_overlay_defined {bag above : Record Value} (h : IsBag bag) (h' : IsBag above)
    (name : String) :
    Value.field (Record.overlay (definedFields (uncovered bag above)) (definedFields above)) name =
      Value.field (Record.overlay bag above) name := by
  have lower := h.uncovered above
  rw [field_overlay h h', field_overlay lower.defined h'.defined, get?_definedFields lower.distinct,
    get?_definedFields h'.distinct, get?_uncovered h.distinct]
  cases Record.get? above name with
  | none =>
    cases Record.get? bag name with
    | none => rfl
    | some v => cases v <;> rfl
  | some v => cases v <;> rfl

theorem register_fields {bag bag' above above' : Record Value} (h : IsBag bag) (ha : IsBag above)
    (h' : IsBag bag') (ha' : IsBag above')
    (same : ∀ name, Value.field (Record.overlay bag above) name =
      Value.field (Record.overlay bag' above') name) (kind kind' : ObjectKind) (w : Workshop) :
    register c (.ofArguments path view (.object kind bag) (.object kind' above)) w =
      register c (.ofArguments path view (.object kind bag') (.object kind' above')) w :=
  register_congr (describe_fields (h.overlay ha).known (h'.overlay ha').known same)

/-- Undefined options may be left out of a bag in the place of the action and of the bag that
follows, if those that the second bag covers are left out of the first one as well. Where it covers
none, or where no bag follows, each bag may be cleared by itself. -/
theorem undefined_options {bag above : Record Value} (h : IsBag bag) (h' : IsBag above)
    (c : Conventions) (path view : String) (kind kind' : ObjectKind) (w : Workshop) :
    let ran := register c (.ofArguments path view (.object kind bag) (.object kind' above)) w
    ran = register c (.ofArguments path view
        (.object kind (definedFields (uncovered bag above)))
        (.object kind' (definedFields above))) w ∧
      (Uncovered bag above →
        ran = register c (.ofArguments path view (.object kind (definedFields bag))
          (.object kind' (definedFields above))) w) ∧
      register c (.ofArguments path view (.object kind bag) .undefined) w =
        register c (.ofArguments path view (.object kind (definedFields bag)) .undefined) w := by
  intro ran
  have lower := (h.uncovered above).defined
  refine ⟨?_, ?_, ?_⟩
  · apply register_fields h h' lower h'.defined
    exact fun name => (field_overlay_defined h h' name).symm
  · intro apart
    apply register_fields h h' h.defined h'.defined
    intro name
    rw [← field_overlay_defined h h', field_overlay lower h'.defined,
      field_overlay h.defined h'.defined, get?_cleared h apart]
  · have none : IsBag [] := ⟨fun _ hn => (by cases hn), List.nodup_nil⟩
    apply register_congr
    apply describe_fields (h.overlay none).known (h.defined.overlay none).known
    intro name
    have under := field_overlay_defined h none name
    rw [uncovered_nil] at under
    exact under.symm

def helperOf : EStateM.Result Fault Workshop Descriptor → Option String
  | .ok d _ => some d.helper.text
  | .error _ _ => none

theorem undefined_options_covered :
    let bag : Record Value := [("as", .string "clock"), ("layout", .undefined)]
    let above : Record Value := [("as", .undefined), ("session", .record [])]
    IsBag bag ∧ IsBag above ∧
      definedFields (uncovered bag above) = [] ∧
      register {} (.ofArguments "/clock" "ClockLive" (.record bag) (.record above)) freshWorkshop =
        register {} (.ofArguments "/clock" "ClockLive" (.record [])
          (.record [("session", .record [])])) freshWorkshop := by
  intro bag above
  have isBag : IsBag bag := by
    constructor <;> simp only [bag, Record.Distinct, Record.names] <;> decide
  have isBag' : IsBag above := by
    constructor <;> simp only [above, Record.Distinct, Record.names] <;> decide
  exact ⟨isBag, isBag', rfl,
    (undefined_options isBag isBag' {} "/clock" "ClockLive" .ordinary .ordinary freshWorkshop).1⟩

/-- An undefined option covers the one below: if it is left out, that one is in force again. -/
theorem undefined_covers :
    let bag : Record Value := [("as", .string "clock")]
    let above : Record Value := [("as", .undefined)]
    Session.Reachable freshWorkshop.draft ∧ IsBag bag ∧ IsBag above ∧
      helperOf (register {} (.ofArguments "/clock" "ClockLive" (.record bag) (.record above))
        freshWorkshop) = some "live" ∧
      helperOf (register {} (.ofArguments "/clock" "ClockLive" (.record (definedFields bag))
        (.record (definedFields above))) freshWorkshop) = some "clock" := by
  intro bag above
  refine ⟨freshWorkshop_reachable, ?_, ?_, ?_, ?_⟩
  · constructor <;> simp only [bag, Record.Distinct, Record.names] <;> decide
  · constructor <;> simp only [above, Record.Distinct, Record.names] <;> decide
  · simp only [bag, above]
    decide +kernel
  · simp only [bag, above]
    decide +kernel

/-! One bag, in the place of the action or behind it. -/

/-- What counts as a bag in the place of an action: it is not left out and no text. The fields of
objects are in the order that objects keep. -/
structure IsBagArgument (b : Value) : Prop where
  given : b ≠ .undefined
  untexted : ∀ s, b ≠ .string s
  ordered : ∀ kind fields, b = .object kind fields → Record.ofList fields = fields

theorem IsBagArgument.before {b : Value} (h : IsBagArgument b) (path view : String) :
    Declaration.ofArguments path view b .undefined =
      ⟨path, view, none, .record (Record.ofList b.ownFields)⟩ := by
  have own : Value.undefined.ownFields = [] := rfl
  cases b with
  | undefined => exact absurd rfl h.given
  | string s => exact absurd rfl (h.untexted s)
  | _ => simp only [Declaration.ofArguments, own, Record.overlay_nil]

theorem IsBagArgument.same {b : Value} (h : IsBagArgument b)
    (plain : b.isTruthy = false ∨ b.plainFields?.isSome) (view : String) :
    requireOptions view ((Value.record (Record.ofList b.ownFields)).orElse (.record [])) =
      requireOptions view (ownBag b) := by
  cases truthy : b.isTruthy with
  | false =>
    rw [ownBag_falsy truthy, ownFields_falsy truthy]
    rfl
  | true =>
    rw [ownBag_truthy truthy]
    rcases plain with falsy | plain
    · cases falsy.symm.trans truthy
    · obtain ⟨kind, fields, rfl⟩ := isPlain_iff.mp plain
      have own : (Value.object kind fields).ownFields = fields := rfl
      rw [own, h.ordered kind fields rfl]
      rfl

theorem requireOptions_items (view : String) (v : Value) (items : List Value) :
    ∃ names, requireOptions view
      ((Value.record (Record.ofList (Value.indexed (v :: items)))).orElse (.record [])) =
        .error (.live (.optionsUnknown view names)) := by
  have item : (toString 0, v) ∈ Value.indexed (v :: items) := by
    simp [Value.indexed, List.zipIdx_cons]
  have first : toString 0 ∈ Record.names (Record.ofList (Value.indexed (v :: items))) :=
    Record.mem_names_ofList.mpr (List.mem_map_of_mem item)
  generalize Record.ofList (Value.indexed (v :: items)) = bag at first ⊢
  have unknown : ((Record.names bag).filter fun name => !optionNames.contains name) ≠ [] :=
    List.ne_nil_of_mem (List.mem_filter.mpr ⟨first, by decide⟩)
  have wrong : (((Record.names bag).filter fun name => !optionNames.contains name) != []) = true :=
    bne_iff_ne.mpr unknown
  refine ⟨(Record.names bag).filter fun name => !optionNames.contains name, ?_⟩
  show requireOptions view (.object .ordinary bag) = _
  simp only [requireOptions, Value.plainFields?, wrong, if_true]
  rfl

/-- One bag in the place of the action and behind it. If it counts as absent or is an object, the
two statements are the same. Any other value is refused behind the place of the action; in that
place it is refused if it has items, and else it passes for no options at all. A view that is no
identifier is refused before either, and a statement that fails leaves the draft as it was. -/
theorem bag_position {b : Value} (h : IsBagArgument b) (c : Conventions) (path view : String)
    (w : Workshop) :
    let before := register c (.ofArguments path view b .undefined) w
    let behind := register c (.ofArguments path view .undefined b) w
    (b.isTruthy = false ∨ b.plainFields?.isSome → before = behind) ∧
      (isDotted view → b.isTruthy → b.plainFields? = none →
        behind = .error (.live (.optionsNotPlain view)) w ∧
          ((∃ v items, b = .array (v :: items)) →
            ∃ names, before = .error (.live (.optionsUnknown view names)) w) ∧
          ((¬∃ v items, b = .array (v :: items)) →
            before = register c (.ofArguments path view .undefined .undefined) w)) ∧
      (isDotted view = false → before = .error (.live (.viewNotDotted view)) w ∧
        behind = .error (.live (.viewNotDotted view)) w) ∧
      ∀ fault left, before = .error fault left ∨ behind = .error fault left →
        left.draft = w.draft := by
  intro before behind
  have before_eq : before =
      register c ⟨path, view, none, .record (Record.ofList b.ownFields)⟩ w := by
    rw [← h.before]
  refine ⟨?_, ?_, ?_, ?_⟩
  · intro plain
    rw [before_eq]
    exact register_congr (describe_congr (h.same plain view))
  · intro dotted truthy other
    refine ⟨?_, ?_, ?_⟩
    · apply register_refused
      apply describe_misfit dotted
      show requireOptions view (ownBag b) = _
      rw [ownBag_truthy truthy, requireOptions, other]
      rfl
    · rintro ⟨v, items, rfl⟩
      obtain ⟨names, refused⟩ := requireOptions_items view v items
      rw [before_eq]
      exact ⟨names, register_refused (describe_misfit dotted refused)⟩
    · intro empty
      have own : b.ownFields = [] := by
        cases b with
        | array items =>
          cases items with
          | nil => rfl
          | cons v items => exact absurd ⟨v, items, rfl⟩ empty
        | string s => exact absurd rfl (h.untexted s)
        | object kind fields => cases other
        | _ => rfl
      rw [before_eq, own]
      exact register_congr (describe_congr rfl)
  · intro undotted
    rw [before_eq]
    exact ⟨register_refused (describe_undotted undotted _),
      register_refused (describe_undotted undotted _)⟩
  · rintro fault left (failed | failed) <;> exact register_error failed

theorem bag_position_refused :
    let bag : Value := .record [("as", .string "clock")]
    let items : Value := .array [.null]
    let before (b : Value) := register {} (.ofArguments "/clock" "ClockLive" b .undefined)
      freshWorkshop
    let behind (b : Value) := register {} (.ofArguments "/clock" "ClockLive" .undefined b)
      freshWorkshop
    IsBagArgument bag ∧ IsBagArgument items ∧ before bag = behind bag ∧
      helperOf (before bag) = some "clock" ∧
      behind items = .error (.live (.optionsNotPlain "ClockLive")) freshWorkshop ∧
      ∃ names, before items = .error (.live (.optionsUnknown "ClockLive" names)) freshWorkshop := by
  intro bag items before behind
  have bagArgument : IsBagArgument bag := by
    refine ⟨nofun, nofun, fun kind fields same => ?_⟩
    have same : Value.record [("as", .string "clock")] = .object kind fields := same
    cases same
    rfl
  have itemsArgument : IsBagArgument items := ⟨nofun, nofun, nofun⟩
  have same := (bag_position bagArgument {} "/clock" "ClockLive" freshWorkshop).1 (.inr rfl)
  obtain ⟨refused, unknown, -⟩ :=
    (bag_position itemsArgument {} "/clock" "ClockLive" freshWorkshop).2.1 (by decide) rfl rfl
  refine ⟨bagArgument, itemsArgument, same, ?_, refused, unknown ⟨.null, [], rfl⟩⟩
  simp only [before, bag]
  decide +kernel

/-- A number passes for no options in the place of the action, and is refused behind it. -/
theorem number_position :
    let five : Value := .ofNat 5
    Session.Reachable freshWorkshop.draft ∧ IsBagArgument five ∧ isDotted "ClockLive" ∧
      five.isTruthy ∧ five.plainFields? = none ∧
      helperOf (register {} (.ofArguments "/clock" "ClockLive" five .undefined) freshWorkshop) =
        some "live" ∧
      register {} (.ofArguments "/clock" "ClockLive" .undefined five) freshWorkshop =
        .error (.live (.optionsNotPlain "ClockLive")) freshWorkshop := by
  intro five
  have truthy : five.isTruthy := by decide
  have dotted : isDotted "ClockLive" := by decide
  refine ⟨freshWorkshop_reachable, ⟨nofun, nofun, nofun⟩, dotted, truthy, rfl, ?_, ?_⟩
  · simp only [five]
    decide +kernel
  · apply register_refused
    apply describe_misfit dotted
    rfl

end ViewRouting.Live
