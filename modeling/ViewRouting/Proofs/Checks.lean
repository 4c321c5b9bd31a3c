import ViewRouting.Router.Scope

/-! What passes a check. Each check of a name that callers give is characterised by the values that
it lets through. -/

namespace ViewRouting

section Failing
variable {ε ε' α β : Type}

theorem bind_ok {x : Except ε α} {f : α → Except ε β} {b : β} :
    (x >>= f) = .ok b ↔ ∃ a, x = .ok a ∧ f a = .ok b := by
  cases x <;> simp [bind, Except.bind]

theorem map_ok {x : Except ε α} {f : α → β} {b : β} :
    x.map f = .ok b ↔ ∃ a, x = .ok a ∧ f a = b := by
  cases x <;> simp [Except.map]

@[simp] theorem ok_mapError (f : ε → ε') (a : α) :
    (Except.ok a : Except ε α).mapError f = .ok a := rfl

theorem mapError_ok {x : Except ε α} {f : ε → ε'} {a : α} :
    x.mapError f = .ok a ↔ x = .ok a := by
  cases x with
  | ok b => simp
  | error e => exact ⟨nofun, nofun⟩

theorem ok_of_isOk {x : Except ε α} (h : x.isOk) : ∃ a, x = .ok a := by
  cases x with
  | ok a => exact ⟨a, rfl⟩
  | error e => cases h

@[simp] theorem throw_eq_error (e : ε) : (throw e : Except ε α) = .error e := rfl

theorem bind_run {σ : Type} (m : EStateM ε σ α) (f : α → EStateM ε σ β) (s : σ) :
    (m >>= f) s =
      match m s with
      | .ok a s => f a s
      | .error e s => .error e s := by
  show EStateM.bind m f s = _
  cases h : m s <;> simp [EStateM.bind, h]

end Failing

/-- The code that a fault is reported with; what is no fault of a router or a live statement has
none. -/
def Fault.code? : Fault → Option String
  | .router fault => some fault.code
  | .live fault => some fault.code
  | .unserializable | .unreadable | .raised _ => none

/-- A check passes what is right, and raises a fault of some kind where something is wrong. -/
structure Guards {α : Type} (check : Except Fault α) (raises : Fault → Prop) (right : Prop) :
    Prop where
  passes : right → ∃ a, check = .ok a
  fails : ¬right → ∃ fault, check = .error fault ∧ raises fault

namespace Guards
variable {α β : Type} {raises : Fault → Prop} {p q : Prop}

theorem right_of_ok {check : Except Fault α} (h : Guards check raises p) {a : α}
    (passed : check = .ok a) : p := by
  apply Classical.byContradiction
  intro wrong
  obtain ⟨fault, hf, -⟩ := h.fails wrong
  rw [passed] at hf
  cases hf

theorem iff {check : Except Fault α} (h : Guards check raises p) (same : p ↔ q) :
    Guards check raises q :=
  ⟨fun hq => h.passes (same.mpr hq), fun hq => h.fails (mt same.mp hq)⟩

theorem bind {check : Except Fault α} {next : α → Except Fault β} (first : Guards check raises p)
    (second : ∀ a, check = .ok a → Guards (next a) raises q) :
    Guards (check >>= next) raises (p ∧ q) := by
  by_cases hp : p
  · obtain ⟨a, ha⟩ := first.passes hp
    have step : check >>= next = next a := by rw [ha]; rfl
    rw [step]
    exact (second a ha).iff (by simp [hp])
  · obtain ⟨fault, hf, hr⟩ := first.fails hp
    exact ⟨fun h => absurd h.1 hp, fun _ => ⟨fault, by rw [hf]; rfl, hr⟩⟩

theorem pure (a : α) : Guards (pure a) raises True :=
  ⟨fun _ => ⟨a, rfl⟩, fun h => absurd trivial h⟩

theorem test {ε : Type} {cause : ε → Fault} (b : Bool) (e : ε) (raised : raises (cause e)) :
    Guards ((if b then .ok () else .error e : Except ε Unit).mapError cause) raises b := by
  cases b with
  | true => exact ⟨fun _ => ⟨(), rfl⟩, fun h => absurd rfl h⟩
  | false => exact ⟨fun h => absurd h (by simp), fun _ => ⟨_, rfl, raised⟩⟩

theorem refuse {wrong : Bool} {stop next : Except Fault α} {fault : Fault}
    (stopped : stop = .error fault) (raised : raises fault) (rest : Guards next raises q) :
    Guards (if wrong then stop else next) raises (wrong = false ∧ q) := by
  cases wrong with
  | true => exact ⟨fun h => absurd h.1 (by simp), fun _ => ⟨fault, stopped, raised⟩⟩
  | false => exact rest.iff (by simp)

theorem complain {v : Value} {fault : String → Fault} (raised : ∀ shown, raises (fault shown))
    (unshown : v.holdsBigint → raises .unserializable) (wrong : ¬p) :
    Guards (v.display >>= fun shown => throw (fault shown) : Except Fault α) raises p := by
  refine ⟨fun h => absurd h wrong, fun _ => ?_⟩
  rw [Value.display]
  split
  · next h => exact ⟨.unserializable, rfl, unshown h⟩
  · exact ⟨fault v.shown, rfl, raised _⟩

/-! An option that is checked where there is one. -/

variable {shape : Value → Prop}

theorem absent (a : α) :
    Guards (.ok a) raises (∀ v, (none : Option Value) = some v → shape v) :=
  ⟨fun _ => ⟨a, rfl⟩, fun h => absurd (fun _ h => nomatch h) h⟩

theorem present {check : Except Fault α} {v : Value} (h : Guards check raises (shape v)) :
    Guards check raises (∀ w, some v = some w → shape w) :=
  h.iff (by simp)

end Guards

namespace Naming

theorem readText_ok {v : Value} {text : String} : readText v = .ok text ↔ v.text? = some text := by
  rw [readText]
  cases v.text? <;> simp

theorem readDotted_ok {v : Value} {q : String} :
    readDotted v = .ok (some q) ↔ v = .string q ∧ isDotted q := by
  cases v with
  | string s =>
    by_cases h : isDotted s
    · simp only [readDotted, h, if_true, Except.ok.injEq, Option.some.injEq, Value.string.injEq]
      constructor
      · rintro rfl
        exact ⟨rfl, h⟩
      · exact fun h => h.1
    · simp only [readDotted, h, Value.string.injEq]
      simp only [Bool.false_eq_true, if_false, Except.ok.injEq, reduceCtorEq, false_iff]
      rintro ⟨rfl, hq⟩
      exact h hq
  | _ => simp only [readDotted]; split <;> simp

end Naming

namespace Router

theorem readHelper_ok {name : Value} {text : String} :
    readHelper name = .ok text ↔ name.text? = some text ∧ Naming.isHelper text := by
  rw [readHelper, bind_ok]
  constructor
  · rintro ⟨t, ht, h⟩
    rw [Naming.readText_ok] at ht
    split at h
    · next hh =>
      cases h
      exact ⟨ht, hh⟩
    · obtain ⟨_, -, h⟩ := bind_ok.mp h
      cases h
  · rintro ⟨ht, hh⟩
    exact ⟨text, Naming.readText_ok.mpr ht, by simp [hh, pure, Except.pure]⟩

theorem text_of_readHelper {name : Value} {text : String} (h : readHelper name = .ok text) :
    name.text = text := by
  rw [Value.text, (readHelper_ok.mp h).1, Option.getD_some]

theorem readQualifier_ok {v : Value} {q : String} :
    readQualifier v = .ok (some q) ↔ v = .string q ∧ Naming.isDotted q := by
  cases v with
  | undefined => simp [readQualifier]
  | _ =>
    simp only [readQualifier, bind_ok, ← Naming.readDotted_ok]
    constructor
    · rintro ⟨read, hr, h⟩
      cases read with
      | some r => cases h; exact hr
      | none =>
        obtain ⟨_, -, h⟩ := bind_ok.mp h
        cases h
    · exact fun h => ⟨some q, h, rfl⟩

end Router

end ViewRouting
