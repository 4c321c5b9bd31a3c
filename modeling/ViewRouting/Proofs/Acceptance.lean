import ViewRouting.Proofs.Courses

/-! When a live statement succeeds. It makes six checks one after another, some where it is
described and some where its route is added; all of them come before the first change, and no other
step in between can fail. In particular an inferred helper always passes as a name of the router. -/

namespace ViewRouting

/-- Conditions in the order in which they are checked, each with the code of the fault that is
raised where it is the first to fail. -/
abbrev Conditions := List (String × Prop)

def Conditions.Hold (conditions : Conditions) : Prop :=
  ∀ x ∈ conditions, x.2

def Conditions.FailsAt (conditions : Conditions) (code : String) : Prop :=
  ∃ before right after, conditions = before ++ (code, right) :: after ∧ Hold before ∧ ¬right

namespace Conditions

theorem hold_cons {code : String} {right : Prop} {rest : Conditions} :
    Hold ((code, right) :: rest) ↔ right ∧ Hold rest :=
  List.forall_mem_cons

theorem hold_append {xs ys : Conditions} : Hold (xs ++ ys) ↔ Hold xs ∧ Hold ys :=
  List.forall_mem_append

theorem failsAt_cons {code c : String} {right : Prop} {rest : Conditions}
    (h : FailsAt ((c, right) :: rest) code) : ¬right ∧ c = code ∨ right ∧ FailsAt rest code := by
  obtain ⟨before, wrong, after, split, held, fails⟩ := h
  cases before with
  | nil =>
    obtain ⟨first, -⟩ := List.cons.inj split
    cases first
    exact .inl ⟨fails, rfl⟩
  | cons x before =>
    obtain ⟨rfl, later⟩ := List.cons.inj split
    obtain ⟨right, held⟩ := hold_cons.mp held
    exact .inr ⟨right, before, wrong, after, later, held, fails⟩

theorem failsAt_append {xs ys : Conditions} {code : String} (h : FailsAt (xs ++ ys) code) :
    FailsAt xs code ∨ Hold xs ∧ FailsAt ys code := by
  induction xs with
  | nil => exact .inr ⟨fun _ h => (by simp at h), h⟩
  | cons x xs ih =>
    obtain ⟨c, right⟩ := x
    rcases failsAt_cons h with ⟨wrong, rfl⟩ | ⟨right, h⟩
    · exact .inl ⟨[], _, xs, rfl, fun _ h => (by simp at h), wrong⟩
    · rcases ih h with ⟨before, wrong, after, rfl, held, fails⟩ | ⟨held, h⟩
      · exact .inl ⟨(c, _) :: before, wrong, after, rfl, hold_cons.mpr ⟨right, held⟩, fails⟩
      · exact .inr ⟨hold_cons.mpr ⟨right, held⟩, h⟩

theorem exists_failsAt {conditions : Conditions} (h : ¬Hold conditions) :
    ∃ code, FailsAt conditions code := by
  induction conditions with
  | nil => exact absurd (fun _ h => (by simp at h)) h
  | cons x rest ih =>
    obtain ⟨code, right⟩ := x
    by_cases hr : right
    · obtain ⟨code', before, wrong, after, rfl, held, fails⟩ :=
        ih fun held => h (hold_cons.mpr ⟨hr, held⟩)
      exact ⟨code', (code, right) :: before, wrong, after, rfl, hold_cons.mpr ⟨hr, held⟩, fails⟩
    · exact ⟨code, [], right, rest, rfl, fun _ h => (by simp at h), hr⟩

end Conditions

/-- A check passes where all conditions hold, and fails with the code of the first that does not. -/
structure Enforces {α : Type} (check : Except Fault α) (conditions : Conditions) : Prop where
  passes : conditions.Hold → ∃ a, check = .ok a
  fails : ∀ code, conditions.FailsAt code → ∃ fault, check = .error fault ∧ fault.code? = some code

namespace Enforces
variable {α β : Type}

theorem ofGuards {check : Except Fault α} {code : String} {right : Prop}
    (h : Guards check (fun fault => fault.code? = some code) right) :
    Enforces check [(code, right)] where
  passes held := h.passes (Conditions.hold_cons.mp held).1
  fails c first := by
    rcases Conditions.failsAt_cons first with ⟨wrong, rfl⟩ | ⟨-, _, _, _, split, -⟩
    · exact h.fails wrong
    · simp at split

theorem append {check : Except Fault α} {next : α → Except Fault β} {xs ys : Conditions}
    (first : Enforces check xs) (second : ∀ a, check = .ok a → Enforces (next a) ys) :
    Enforces (check >>= next) (xs ++ ys) where
  passes held := by
    obtain ⟨hx, hy⟩ := Conditions.hold_append.mp held
    obtain ⟨a, ha⟩ := first.passes hx
    obtain ⟨b, hb⟩ := (second a ha).passes hy
    exact ⟨b, bind_ok.mpr ⟨a, ha, hb⟩⟩
  fails code h := by
    rcases Conditions.failsAt_append h with h | ⟨hx, h⟩
    · obtain ⟨fault, hf, hc⟩ := first.fails code h
      exact ⟨fault, by rw [hf]; rfl, hc⟩
    · obtain ⟨a, ha⟩ := first.passes hx
      obtain ⟨fault, hf, hc⟩ := (second a ha).fails code h
      exact ⟨fault, by rw [ha]; exact hf, hc⟩

theorem refuse {wrong : Bool} {stop next : Except Fault α} {fault : Fault} {code : String}
    {rest : Conditions} (stopped : stop = .error fault) (reported : fault.code? = some code)
    (second : Enforces next rest) :
    Enforces (if wrong then stop else next) ((code, wrong = false) :: rest) where
  passes held := by
    obtain ⟨rfl, rest⟩ := Conditions.hold_cons.mp held
    exact second.passes rest
  fails c h := by
    rcases Conditions.failsAt_cons h with ⟨wrongs, rfl⟩ | ⟨rfl, later⟩
    · have : wrong = true := by simpa using wrongs
      exact ⟨fault, by rw [this]; exact stopped, reported⟩
    · exact second.fails c later

theorem always {check : Except Fault α} (h : ∃ a, check = .ok a) : Enforces check [] where
  passes _ := h
  fails _ first := by
    obtain ⟨before, _, _, split, -⟩ := first
    simp at split

end Enforces

end ViewRouting

namespace ViewRouting.Live
open Router Naming

def descriptionConditions (c : Conventions) (d : Draft) (view : String) (action : Option String)
    (options : Value) : Conditions := [
  ("LIVE_INVALID_VIEW", isDotted view),
  ("LIVE_INVALID_OPTION", options.isTruthy → IsOptions options),
  ("LIVE_INVALID_ACTION", ∀ a, action = some a → isHelper a),
  ("LIVE_HELPER_NAME_INFERENCE", action = none ∨ (Value.present? options.ownFields "as").isSome ∨
    NamesHelper c.liveSuffix.text (d.qualify view))]

def routeConditions (d : Draft) (path : String) : Conditions := [
  ("ROUTER_SEALED", d.finished = false),
  ("ROUTER_INVALID_PATH", Path.isRooted path)]

/-- A live statement as it is written: options that count as absent are left out. -/
def statement (path view : String) (action : Option String) (options : Value) : Declaration :=
  .ofArguments path view ((action.map Value.string).getD .undefined) options

theorem statement_eq (path view : String) (action : Option String) (options : Value) :
    statement path view action options =
      { path, view, action := action.map Value.string,
        options := if options.isTruthy then options else .undefined } := by
  cases action <;> rfl

/-! The checks of a description. -/

theorem grammatical_empty : Grammatical [] where
  known name h := by simp [Record.names] at h
  session v h := by cases h
  layout v h := by cases h
  container v h := by cases h
  helper v h := by cases h

def ownBag (options : Value) : Value :=
  (if options.isTruthy then options else .undefined).orElse (.record [])

theorem ownBag_truthy {options : Value} (h : options.isTruthy) : ownBag options = options := by
  have there : options.isNullish = false := by
    cases options <;> first | rfl | cases h
  simp [ownBag, h, Value.orElse, Value.given?, there]

theorem ownBag_falsy {options : Value} (h : options.isTruthy = false) :
    ownBag options = .record [] := by
  rw [ownBag, h]
  rfl

theorem ownBag_options (options : Value) :
    IsOptions (ownBag options) ↔ (options.isTruthy → IsOptions options) := by
  cases h : options.isTruthy with
  | true => simp [ownBag_truthy h]
  | false =>
    rw [ownBag_falsy h]
    exact ⟨fun _ h => (by cases h), fun _ => ⟨.ordinary, [], rfl, grammatical_empty⟩⟩

theorem ownFields_falsy {v : Value} (h : v.isTruthy = false) : v.ownFields = [] := by
  cases v with
  | string s =>
    have : s = "" := by simpa [Value.isTruthy] using h
    subst this
    rfl
  | symbol | date | array | object => cases h
  | _ => rfl

theorem ownFields_ownBag {view : String} {options : Value} {own : Record Value}
    (read : requireOptions view (ownBag options) = .ok own) : options.ownFields = own := by
  obtain ⟨kind, bag, -⟩ := requireOptions_ok read
  cases h : options.isTruthy with
  | true =>
    rw [ownBag_truthy h] at bag
    rw [bag]
    rfl
  | false =>
    rw [ownBag_falsy h] at bag
    cases bag
    exact ownFields_falsy h

theorem requireOptions_enforced {options : Value} (plain : options.holdsBigint = false)
    (view : String) :
    Guards (requireOptions view (ownBag options))
      (fun fault => fault.code? = some "LIVE_INVALID_OPTION")
      (options.isTruthy → IsOptions options) := by
  have bagPlain : (ownBag options).holdsBigint = false := by
    cases h : options.isTruthy with
    | true => rwa [ownBag_truthy h]
    | false =>
      rw [ownBag_falsy h]
      rfl
  have guards := (requireOptions_guards view (ownBag options)).iff (ownBag_options options)
  refine ⟨guards.passes, fun wrong => ?_⟩
  obtain ⟨fault, hf, refused⟩ := guards.fails wrong
  exact ⟨fault, hf, refused bagPlain⟩

theorem requireAction_guards (view : String) (action : Option String) :
    Guards ((action.map Value.string).forM (requireAction view))
      (fun fault => fault.code? = some "LIVE_INVALID_ACTION")
      (∀ a, action = some a → isHelper a) := by
  cases action with
  | none => exact (Guards.pure ()).iff (by simp)
  | some a =>
    have check : requireAction view (.string a) = if isHelper a then pure () else
        (Value.string a).display >>= fun shown => throw (.live (.actionNotSnakeCase view shown)) :=
      rfl
    show Guards (requireAction view (.string a)) _ _
    rw [check]
    split
    · next valid => exact (Guards.pure ()).iff (by simp [valid])
    · next wrong => exact .complain (fun _ => rfl) (fun h => by cases h) (by simpa using wrong)

theorem settleHelper_guards {c : Conventions} {suffix : String}
    (hc : c.liveSuffix = .string suffix) {view : String} (dotted : isDotted view)
    (action helper : Option Value) :
    Guards ((settleHelper c view action helper).mapError .live)
      (fun fault => fault.code? = some "LIVE_HELPER_NAME_INFERENCE")
      (action = none ∨ helper.isSome ∨ NamesHelper suffix view) := by
  cases helper with
  | some helper => exact ⟨fun _ => ⟨_, rfl⟩, fun wrong => absurd (.inr (.inl rfl)) wrong⟩
  | none =>
    cases action with
    | none => exact ⟨fun _ => ⟨_, rfl⟩, fun wrong => absurd (.inl rfl) wrong⟩
    | some action =>
      by_cases names : NamesHelper suffix view
      · obtain ⟨name, -, inferred⟩ := helperFor_inferred hc dotted names action
        have settled : settleHelper c view (some action) none = _ := inferred
        rw [settled]
        exact ⟨fun _ => ⟨_, rfl⟩, fun wrong => absurd (.inr (.inr names)) wrong⟩
      · have settled : settleHelper c view (some action) none = _ :=
          helperFor_refused hc dotted names action
        rw [settled]
        exact ⟨fun h => absurd h (by simp [names]), fun _ => ⟨_, rfl, rfl⟩⟩

theorem describe_enforces {c : Conventions} (normal : c.Normal) {d : Draft} (hd : DraftSound d)
    (path view : String) (action : Option String) {options : Value}
    (plain : options.holdsBigint = false) :
    Enforces (describe c (.ofDraft d) (statement path view action options))
      (descriptionConditions c d view action options) := by
  obtain ⟨suffix, hc, -⟩ := normal.liveSuffix
  rw [describe_eq, statement_eq]
  apply (Enforces.ofGuards (requireView_guards view)).append
  intro _ viewed
  have dotted := (requireView_guards view).right_of_ok viewed
  apply (Enforces.ofGuards (requireOptions_enforced plain view)).append
  intro own read
  apply (Enforces.ofGuards (requireAction_guards view action)).append
  intro _ _
  have own_eq := ownFields_ownBag read
  have text : c.liveSuffix.text = suffix := by
    rw [hc]
    rfl
  rw [own_eq, text]
  have right := (settleHelper_guards hc (qualify_dotted hd dotted) (action.map Value.string)
    (Value.present? own "as")).iff (q := action = none ∨ (Value.present? own "as").isSome ∨
      NamesHelper suffix (d.qualify view)) (by simp)
  apply (Enforces.ofGuards right).append
  intro helper _
  exact .always ⟨_, rfl⟩

theorem accept_enforces (d : Draft) {r : Registration} (valid : IsHelperText r.options.helper) :
    Enforces (d.accept r) (routeConditions d r.path) := by
  obtain ⟨s, hs, valid⟩ := valid
  have own : d.ownHelper r.options.helper r.handler = .ok (.string s) := by
    rw [hs]
    rfl
  have joined : ∃ helper, helperUnder d.current.stem (.string s) = .ok helper := by
    have read : readHelper (.string s) = .ok s := readHelper_ok.mpr ⟨rfl, valid⟩
    rw [helperUnder, read]
    exact ⟨_, rfl⟩
  obtain ⟨helper, joined⟩ := joined
  rw [Draft.accept, own]
  apply Enforces.refuse rfl rfl
  have rooted : Guards ((Path.requireRooted r.path).mapError .router)
      (fun fault => fault.code? = some "ROUTER_INVALID_PATH") (Path.isRooted r.path) :=
    .test _ _ rfl
  apply (Enforces.ofGuards rooted).append
  intro _ _
  exact .always ⟨d.entry r helper, bind_ok.mpr ⟨_, rfl, bind_ok.mpr ⟨helper, joined, rfl⟩⟩⟩

/-! A statement as a whole. -/

theorem settle_enforces {c : Conventions} (normal : c.Normal) {d : Draft} (hd : DraftSound d)
    (path view : String) (action : Option String) {options : Value}
    (plain : options.holdsBigint = false) :
    Enforces (settle c d (statement path view action options))
      (descriptionConditions c d view action options ++ routeConditions d path) := by
  apply (describe_enforces normal hd path view action plain).append
  intro built described
  have valid := registration_valid normal hd described
  have samePath : (built.value.registration c).path = path := by
    obtain ⟨-, own, helper, -, -, -, rfl⟩ := describe_ok described
    rw [statement_eq]
    rfl
  have route := accept_enforces d valid
  rw [samePath] at route
  rw [← List.append_nil (routeConditions d path)]
  exact route.append fun e _ => .always ⟨(built, e), rfl⟩

theorem register_settled {c : Conventions} (normal : c.Normal) {d : Draft} (hd : DraftSound d)
    (decl : Declaration) (journal : Trace.Journal) :
    ∃ journal', register c decl ⟨d, journal⟩ =
      match settle c d decl with
      | .ok (built, e) => .ok built.value ⟨{ d with entries := d.entries ++ [e] }, journal'⟩
      | .error fault => .error fault ⟨d, journal'⟩ := by
  obtain ⟨live, -, takes⟩ := Session.takes_register normal hd decl
  obtain ⟨noted, -, ran⟩ := takes journal
  refine ⟨noted, ran.trans ?_⟩
  cases settle c d decl <;> rfl

/-- A live statement succeeds exactly where all conditions hold, and then one route is added and
nothing else changes. Where one fails, the first that does so is reported, and nothing changes. -/
theorem register_acceptance {d : Draft} (reachable : Session.Reachable d) {c : Conventions}
    (normalized : c.Normalized) (path view : String) (action : Option String) {options : Value}
    (plain : options.holdsBigint = false) (journal : Trace.Journal) :
    let asked := descriptionConditions c d view action options ++ routeConditions d path
    let ran := register c (statement path view action options) ⟨d, journal⟩
    ((∃ descriptor w, ran = .ok descriptor w) ↔ asked.Hold) ∧
      (∀ descriptor w, ran = .ok descriptor w →
        ∃ e, d.accept (descriptor.registration c) = .ok e ∧
          w.draft = { d with entries := d.entries ++ [e] }) ∧
      ∀ code, asked.FailsAt code →
        ∃ fault w, ran = .error fault w ∧ fault.code? = some code ∧ w.draft = d := by
  intro asked ran
  have hd := Session.reachable_sound reachable
  have normal := normalized.normal
  have enforced := settle_enforces normal hd path view action plain
  obtain ⟨noted, settled⟩ :=
    register_settled normal hd (statement path view action options) journal
  have failure : ∀ code, asked.FailsAt code →
      ∃ fault w, ran = .error fault w ∧ fault.code? = some code ∧ w.draft = d := by
    intro code first
    obtain ⟨fault, failed, reported⟩ := enforced.fails code first
    rw [failed] at settled
    exact ⟨fault, _, settled, reported, rfl⟩
  refine ⟨⟨?_, ?_⟩, ?_, failure⟩
  · rintro ⟨descriptor, w, passed⟩
    by_contra wrong
    obtain ⟨code, first⟩ := Conditions.exists_failsAt wrong
    obtain ⟨fault, w', failed, -⟩ := failure code first
    rw [passed] at failed
    cases failed
  · intro held
    obtain ⟨⟨built, e⟩, passed⟩ := enforced.passes held
    rw [passed] at settled
    exact ⟨_, _, settled⟩
  · intro descriptor w passed
    cases hs : settle c d (statement path view action options) with
    | error fault =>
      rw [hs] at settled
      cases passed.symm.trans settled
    | ok result =>
      obtain ⟨built, e⟩ := result
      rw [hs] at settled
      cases passed.symm.trans settled
      exact ⟨e, (settle_ok hs).2, rfl⟩

theorem register_acceptance_inferred :
    ∃ (d : Draft) (journal : Trace.Journal) (descriptor : Descriptor) (w : Workshop),
      Session.Reachable d ∧ Conventions.Normalized {} ∧
      register {} (statement "/users" "UserLive.Index" (some "index") .undefined) ⟨d, journal⟩ =
        .ok descriptor w ∧ w.draft.entries.length = 1 := by
  let journal : Trace.Journal := ⟨.fresh none {} .epoch, []⟩
  let d : Draft := { name := "App.Router", handlerSuffix := .string "Controller" }
  have reachable : Session.Reachable d :=
    ⟨"App.Router", {}, d, ⟨"Controller", rfl⟩, if_pos (by decide), .refl⟩
  have normalized : Conventions.Normalized {} := Conventions.normalized_default
  have names : NamesHelper "Live" "UserLive.Index" := by
    refine ⟨[], "UserLive", ["Index"], by decide, by simp, by decide, "Index", by simp, by decide⟩
  have held : Conditions.Hold (descriptionConditions {} d "UserLive.Index" (some "index") .undefined
      ++ routeConditions d "/users") := by
    simp only [descriptionConditions, routeConditions, List.cons_append, List.nil_append,
      Conditions.hold_cons]
    refine ⟨by decide, fun h => (by cases h), ?_, .inr (.inr names), rfl, by decide, ?_⟩
    · rintro a ⟨⟩
      decide
    · intro x hx
      cases hx
  have plain : Value.undefined.holdsBigint = false := rfl
  obtain ⟨succeeds, adds, -⟩ := register_acceptance reachable normalized "/users" "UserLive.Index"
    (some "index") plain journal
  obtain ⟨descriptor, w, ran⟩ := succeeds.mpr held
  obtain ⟨e, -, added⟩ := adds descriptor w ran
  exact ⟨d, journal, descriptor, w, reachable, normalized, ran, by rw [added]; rfl⟩

end ViewRouting.Live
