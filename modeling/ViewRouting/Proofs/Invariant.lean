import ViewRouting.Proofs.Description
import ViewRouting.Proofs.Reachable
import ViewRouting.Proofs.Segments

/-! What holds of every draft that typed callers can bring about. Paths are canonical, qualifiers
are identifiers and stems are helper names, although they are added up without being checked again;
and pipelines that are piped through are declared, although they are looked up elsewhere and later.
-/

namespace ViewRouting.Router
open Naming

def Declared (pipelines : Pipelines) (name : String) : Prop :=
  (pipelines.lookup name).isSome

structure FrameSound (pipelines : Pipelines) (f : Frame) : Prop where
  path : Path.IsCanonical f.path
  qualifier : ∀ q, f.qualifier = some q → Naming.isDotted q
  stem : f.stem = .undefined ∨ IsHelperText f.stem
  group : f.group.Typed
  pipes : ∀ name ∈ f.pipes, Declared pipelines name

structure EntrySound (pipelines : Pipelines) (e : Entry) : Prop where
  path : Path.IsCanonical e.path
  helper : IsHelperText e.helper
  pipes : ∀ name ∈ e.pipes, Declared pipelines name

structure DraftSound (d : Draft) : Prop where
  name : Naming.isDotted d.name
  handlerSuffix : d.handlerSuffix.IsText
  /-- The root frame is at the bottom of the stack. -/
  root : ∃ names, d.frames.head? = some { Frame.root with pipes := names }
  frames : ∀ f ∈ d.frames, FrameSound d.pipelines f
  entries : ∀ e ∈ d.entries, EntrySound d.pipelines e
  plugs : ∀ p ∈ d.pipelines, ∀ plug ∈ p.2, plug.Typed

/-- What was declared stays declared as it was. -/
def Keeps (before after : Pipelines) : Prop :=
  ∀ name plugs, before.lookup name = some plugs → after.lookup name = some plugs

namespace Keeps

protected theorem refl (pipelines : Pipelines) : Keeps pipelines pipelines :=
  fun _ _ h => h

protected theorem trans {a b c : Pipelines} (first : Keeps a b) (next : Keeps b c) : Keeps a c :=
  fun name plugs h => next name plugs (first name plugs h)

theorem append (before more : Pipelines) : Keeps before (before ++ more) := by
  intro name plugs h
  rw [List.lookup_append, h]
  rfl

theorem declared {a b : Pipelines} (h : Keeps a b) {name : String} (known : Declared a name) :
    Declared b name := by
  obtain ⟨plugs, hp⟩ := Option.isSome_iff_exists.mp known
  exact Option.isSome_iff_exists.mpr ⟨plugs, h name plugs hp⟩

end Keeps

theorem FrameSound.keep {a b : Pipelines} (h : Keeps a b) {f : Frame} (hf : FrameSound a f) :
    FrameSound b f :=
  { hf with pipes := fun name hn => h.declared (hf.pipes name hn) }

theorem EntrySound.keep {a b : Pipelines} (h : Keeps a b) {e : Entry} (he : EntrySound a e) :
    EntrySound b e :=
  { he with pipes := fun name hn => h.declared (he.pipes name hn) }

/-! Frames. -/

theorem root_sound (pipelines : Pipelines) : FrameSound pipelines .root where
  path := Path.root_canonical
  qualifier _ h := by cases h
  stem := .inl rfl
  group := GroupOptions.typed_empty
  pipes name h := by simp [Frame.root] at h

theorem helperUnder_sound {stem own helper : Value} (hs : stem = .undefined ∨ IsHelperText stem)
    (text : own.IsText) (h : helperUnder stem own = .ok helper) : IsHelperText helper := by
  -- A helper name under a stem is a helper name, although the two are not looked at together.
  obtain ⟨t, rfl⟩ := text
  obtain ⟨read, hr, h⟩ := bind_ok.mp h
  obtain ⟨ht, valid⟩ := readHelper_ok.mp hr
  cases ht
  cases h
  rcases hs with rfl | ⟨s, rfl, hs⟩
  · exact ⟨t, rfl, valid⟩
  · have truthy : (Value.string s).isTruthy := by
      simpa [Value.isTruthy] using Naming.isHelper_ne_empty hs
    exact ⟨s ++ "_" ++ t, by rw [if_pos truthy]; rfl, Naming.isHelper_concat hs valid⟩

theorem extendStem_sound {outer inner stem : Value}
    (ho : outer = .undefined ∨ IsHelperText outer) (hi : inner = .undefined ∨ inner.IsText)
    (h : extendStem outer inner = .ok stem) : stem = .undefined ∨ IsHelperText stem := by
  rcases hi with rfl | ⟨s, rfl⟩
  · cases h
    exact ho
  · exact .inr (helperUnder_sound ho ⟨s, rfl⟩ h)

theorem extendQualifier_sound {outer inner : Option String}
    (ho : ∀ q, outer = some q → Naming.isDotted q) (hi : ∀ q, inner = some q → Naming.isDotted q) :
    ∀ q, extendQualifier outer inner = some q → Naming.isDotted q := by
  cases inner with
  | none => exact ho
  | some r =>
    intro q h
    cases h
    apply Naming.concat_dotted
    · intro i hi'
      simp only [List.mem_cons, List.not_mem_nil, or_false] at hi'
      rcases hi' with rfl | rfl
      · cases outer with
        | none => exact .inl rfl
        | some o => exact .inr (ho o rfl)
      · exact .inr (hi _ rfl)
    · exact ⟨r, by simp, Naming.isDotted_ne_empty (hi r rfl)⟩

theorem enter_sound {pipelines : Pipelines} {outer frame : Frame} {path : String} {options : Value}
    (ho : FrameSound pipelines outer) (typed : options.IsScopeOptions)
    (h : outer.enter path options = .ok frame) : FrameSound pipelines frame := by
  obtain ⟨_, -, h⟩ := bind_ok.mp h
  obtain ⟨asked, ha, h⟩ := bind_ok.mp h
  obtain ⟨qualifier, hq, h⟩ := bind_ok.mp h
  obtain ⟨stem, hs, h⟩ := bind_ok.mp h
  cases h
  have asks := ScopeOptions.typed_ofValue typed ha
  exact {
    path := Path.join_canonical outer.path path
    qualifier := by
      apply extendQualifier_sound ho.qualifier
      rintro q rfl
      exact (readQualifier_ok.mp hq).2
    stem := extendStem_sound ho.stem asks.stem hs
    group := asks.group
    pipes := fun name h => by simp at h }

theorem mem_pipes {d : Draft} {name : String} :
    name ∈ d.pipes ↔ ∃ f ∈ d.frames, name ∈ f.pipes :=
  List.mem_flatMap

/-! Entries. -/

theorem ownHelper_text {d : Draft} {given own : Value} {handler : String}
    (typed : given = .undefined ∨ given.IsText) (h : d.ownHelper given handler = .ok own) :
    own.IsText := by
  rw [Draft.ownHelper] at h
  rcases typed with rfl | ⟨s, rfl⟩
  · obtain ⟨name, -, rfl⟩ := map_ok.mp h
    exact ⟨name, rfl⟩
  · cases h
    exact ⟨s, rfl⟩

theorem accept_sound {d : Draft} (hd : DraftSound d) {r : Live.Registration} {e : Entry}
    (typed : r.options.helper = .undefined ∨ r.options.helper.IsText) (h : d.accept r = .ok e) :
    EntrySound d.pipelines e := by
  obtain ⟨-, -, own, helper, ho, hh, rfl⟩ := Draft.accept_ok.mp h
  have current := hd.frames d.current (by simp [Draft.frames])
  exact {
    path := Path.join_canonical d.current.path r.path
    helper := helperUnder_sound current.stem (ownHelper_text typed ho) hh
    pipes := by
      intro name hn
      obtain ⟨f, hf, hn⟩ := mem_pipes.mp hn
      exact (hd.frames f hf).pipes name hn }

end ViewRouting.Router

namespace ViewRouting.Live
open Router Naming

theorem qualify_dotted {d : Draft} (hd : DraftSound d) {view : String} (h : isDotted view) :
    isDotted (d.qualify view) := by
  have current := hd.frames d.current (by simp [Draft.frames])
  rw [Draft.qualify, Frame.qualify]
  split
  · exact h
  · exact h
  · next q _ hq =>
    apply concat_dotted
    · intro i hi
      simp only [List.mem_cons, List.not_mem_nil, or_false] at hi
      rcases hi with rfl | rfl
      · exact .inr (current.qualifier _ hq)
      · exact .inr h
    · exact ⟨view, by simp, isDotted_ne_empty h⟩

theorem registration_valid {c : Conventions} (normal : c.Normal) {d : Draft} (hd : DraftSound d)
    {decl : Declaration} {built : Observed Descriptor}
    (h : describe c (.ofDraft d) decl = .ok built) :
    IsHelperText (built.value.registration c).options.helper := by
  obtain ⟨dotted, own, helper, -, grammatical, settled, rfl⟩ := describe_ok h
  exact settleHelper_valid normal grammatical (qualify_dotted hd dotted) settled

end ViewRouting.Live

namespace ViewRouting.Session
open Router Live

/-! What moves do to a draft. -/

theorem start_sound {name : String} {options : RouterOptions} (typed : options.Typed) {d : Draft}
    (h : Draft.start name options = .ok d) : DraftSound d := by
  rw [Draft.start] at h
  split at h
  · next dotted =>
    cases h
    exact {
      name := dotted
      handlerSuffix := typed
      root := ⟨[], rfl⟩
      frames := by
        intro f hf
        simp [Draft.frames] at hf
        subst hf
        exact root_sound _
      entries := fun e he => by cases he
      plugs := fun p hp => by cases hp }
  · cases h

theorem frames_eq (d : Draft) : d.frames = d.enclosing.reverse ++ [d.current] := by
  simp [Draft.frames]

theorem pipe_sound {d : Draft} (hd : DraftSound d) {names : List String}
    (known : ∀ name ∈ names, Declared d.pipelines name) :
    DraftSound { d with current := { d.current with pipes := d.current.pipes ++ names } } := by
  have current := hd.frames d.current (by simp [frames_eq])
  obtain ⟨rootPipes, root⟩ := hd.root
  refine { hd with root := ?_, frames := ?_ }
  · rw [frames_eq] at root ⊢
    cases hr : d.enclosing.reverse with
    | nil =>
      have bottom : d.current = { Frame.root with pipes := rootPipes } := by
        simpa [hr] using root
      exact ⟨rootPipes ++ names, by simp [bottom]⟩
    | cons f rest => exact ⟨rootPipes, by simpa [hr] using root⟩
  · intro f hf
    rw [frames_eq, List.mem_append, List.mem_singleton] at hf
    rcases hf with hf | rfl
    · exact hd.frames f (by simp [frames_eq] at hf ⊢; exact .inl hf)
    · refine { current with pipes := ?_ }
      intro name hn
      rcases List.mem_append.mp hn with hn | hn
      · exact current.pipes name hn
      · exact known name hn

theorem add_sound {d : Draft} (hd : DraftSound d) {e : Entry} (he : EntrySound d.pipelines e) :
    DraftSound { d with entries := d.entries ++ [e] } := by
  refine { hd with entries := ?_ }
  intro x hx
  rcases List.mem_append.mp hx with hx | hx
  · exact hd.entries x hx
  · rw [List.mem_singleton.mp hx]
    exact he

theorem effect_sound {d d' : Draft} {operation : Operation} (typed : operation.Typed)
    (hd : DraftSound d) (h : Effect d operation d') : DraftSound d' ∧ Keeps d.pipelines d'.pipelines := by
  cases h with
  | still => exact ⟨hd, .refl _⟩
  | finish => exact ⟨{ hd with }, .refl _⟩
  | pipe unfinished known => exact ⟨pipe_sound hd known, .refl _⟩
  | @pipeline name plugs unfinished new =>
    have keeps := Keeps.append d.pipelines [(name, plugs)]
    refine ⟨{ hd with
      frames := fun f hf => (hd.frames f hf).keep keeps
      entries := fun e he => (hd.entries e he).keep keeps
      plugs := ?_ }, keeps⟩
    intro p hp
    rcases List.mem_append.mp hp with hp | hp
    · exact hd.plugs p hp
    · rw [List.mem_singleton.mp hp]
      exact typed
  | add read accepted =>
    have helper := AddOptions.helper_ofValue typed read
    exact ⟨add_sound hd (accept_sound hd helper accepted), .refl _⟩
  | register described accepted =>
    have helper := (registration_valid typed.normal hd described).isText
    exact ⟨add_sound hd (accept_sound hd (.inr helper) accepted), .refl _⟩

theorem into_sound {d : Draft} (hd : DraftSound d) {frame : Frame}
    (hf : FrameSound d.pipelines frame) : DraftSound (d.into frame) := by
  have frames : (d.into frame).frames = d.frames ++ [frame] := by
    simp [frames_eq, Draft.into]
  obtain ⟨names, root⟩ := hd.root
  refine { hd with root := ⟨names, ?_⟩, frames := ?_ }
  · rw [frames, List.head?_append, root]
    rfl
  · rw [frames]
    intro f hf'
    rcases List.mem_append.mp hf' with hf' | hf'
    · exact hd.frames f hf'
    · rw [List.mem_singleton.mp hf']
      exact hf

theorem leave_sound {d : Draft} (hd : DraftSound d) (inside : d.enclosing ≠ []) :
    DraftSound d.leave := by
  obtain ⟨outer, rest, h⟩ := List.exists_cons_of_ne_nil inside
  have left : d.leave = { d with current := outer, enclosing := rest } := by
    rw [Draft.leave, h]
  have frames : d.frames = d.leave.frames ++ [d.current] := by
    simp [frames_eq, left, h]
  obtain ⟨names, root⟩ := hd.root
  have hroot : d.leave.frames.head? = d.frames.head? := by
    rw [frames, List.head?_append]
    simp [frames_eq]
  rw [left] at hroot frames ⊢
  refine { hd with root := ⟨names, hroot.trans root⟩, frames := ?_ }
  intro f hf
  exact hd.frames f (by rw [frames]; exact List.mem_append_left _ hf)

theorem move_sound {d d' : Draft} (hd : DraftSound d) (h : Move d d') :
    DraftSound d' ∧ Keeps d.pipelines d'.pipelines := by
  cases h with
  | operate journal typed =>
    exact effect_sound typed hd (operate_effect ..)
  | enter path journal typed =>
    rcases leftBy_enterScope path _ d journal with h | ⟨frame, entered, h⟩
    · rw [h]
      exact ⟨hd, .refl _⟩
    · rw [h]
      have current := hd.frames d.current (by simp [frames_eq])
      exact ⟨into_sound hd (enter_sound current typed entered), .refl _⟩
  | leave journal inside =>
    rw [leftBy_leaveScope]
    refine ⟨leave_sound hd inside, ?_⟩
    rw [Draft.leave]
    split <;> exact .refl _

theorem reaches_sound {d d' : Draft} (hd : DraftSound d) (h : Reaches d d') :
    DraftSound d' ∧ Keeps d.pipelines d'.pipelines := by
  induction h with
  | refl => exact ⟨hd, .refl _⟩
  | tail _ move ih =>
    obtain ⟨sound, keeps⟩ := move_sound ih.1 move
    exact ⟨sound, ih.2.trans keeps⟩

theorem reachable_sound {d : Draft} (h : Reachable d) : DraftSound d := by
  obtain ⟨name, options, start, typed, started, reached⟩ := h
  exact (reaches_sound (start_sound typed started) reached).1

/-- Every draft that a successful start leads to, by whatever moves, is sound. From then on what was
declared stays, and a scope is left on the stack that it was opened on, whatever its body did. -/
theorem draft_invariant {name : String} {options : RouterOptions} {start d : Draft}
    (typed : options.Typed) (started : Draft.start name options = .ok start)
    (reached : Reaches start d) :
    DraftSound d ∧ (∀ d', Reaches d d' → Keeps d.pipelines d'.pipelines) ∧
      ∀ (path : String) (asked : Value) (journal : Trace.Journal) (w : Workshop)
        (propagate : Bool) (body : List Step), asked.IsScopeOptions →
        BodyTyped body → Drafting.enterScope path asked ⟨d, journal⟩ = .ok () w →
        Reaches d (runBody propagate body w).2.draft ∧
          (runBody propagate body w).2.draft.enclosing = d.current :: d.enclosing := by
  have sound := (reaches_sound (start_sound typed started) reached).1
  refine ⟨sound, fun d' h => (reaches_sound sound h).2, ?_⟩
  intro path asked journal w propagate body askedTyped bodyTyped entered
  have enter := Move.enter (d := d) path journal askedTyped
  rw [leftBy, entered] at enter
  have ran := runBody_reaches propagate body bodyTyped w
  refine ⟨ran.1.head enter, ?_⟩
  rw [ran.2.enclosing]
  rcases Drafting.enterScope_cases path asked ⟨d, journal⟩ with ⟨_, _, h⟩ | ⟨_, _, -, -, h⟩
  · rw [entered] at h
    cases h
  · rw [entered] at h
    cases h
    rfl

theorem draft_invariant_nested :
    ∃ start d : Draft, Draft.start "App.Router" {} = .ok start ∧ Reaches start d ∧
      d.enclosing.length = 1 ∧ d.current.pipes = ["browser"] ∧
      d.entries.map Entry.path = ["/admin/users"] ∧ DraftSound d := by
  let journal : Trace.Journal := ⟨.fresh none {} .epoch, []⟩
  let options : Value := .record [("as", .string "admin"), ("alias", .string "Admin")]
  let start : Draft := { name := "App.Router", handlerSuffix := .string "Controller" }
  let first : Draft := leftBy (Operation.pipeline "browser" []).perform start journal
  let second : Draft := leftBy (Drafting.enterScope "/admin/" options) first journal
  let third : Draft := leftBy (Operation.pipe ["browser"]).perform second journal
  let last : Draft := leftBy
    (Operation.add "GET" "/users" "UserController" "index" .undefined).perform third journal
  have scope : options.IsScopeOptions :=
    .inr ⟨.ordinary, _, rfl, .inr ⟨"Admin", rfl⟩, .inr ⟨"admin", rfl⟩, .inl rfl, .inl rfl, .inl rfl⟩
  have reached : Reaches start last :=
    (((Relation.ReflTransGen.single (.operate journal (by simp [Operation.Typed]))).tail
      (.enter "/admin/" journal scope)).tail (.operate journal trivial)).tail
      (.operate journal (.inl rfl))
  have typed : RouterOptions.Typed {} := ⟨"Controller", rfl⟩
  have started : Draft.start "App.Router" {} = .ok start := if_pos (by decide)
  refine ⟨start, last, started, reached, ?_, ?_, ?_, (draft_invariant typed started reached).1⟩
  · simp only [last, third, second, first, start, options, journal]
    decide +kernel
  · simp only [last, third, second, first, start, options, journal]
    decide +kernel
  · simp only [last, third, second, first, start, options, journal]
    decide +kernel

end ViewRouting.Session
