import ViewRouting.Proofs.Description
import ViewRouting.Proofs.Invariant
import ViewRouting.Proofs.Records

/-! Which options are in force. Frames are overlaid from the outermost to the innermost one, so that
what is laid last wins; users look from the inside out, and the first that they find is the same. A
layout may also come from a pipeline, and session data are looked for key by key. -/

namespace ViewRouting.GroupOptions

theorem overlay_typed {o i : GroupOptions} (ho : o.Typed) (hi : i.Typed) : (o.overlay i).Typed where
  layout v h := by
    rcases Option.or_eq_some_iff.mp (by simpa [overlay] using h) with h | ⟨-, h⟩
    · exact hi.layout v h
    · exact ho.layout v h
  container v h := by
    rcases Option.or_eq_some_iff.mp (by simpa [overlay] using h) with h | ⟨-, h⟩
    · exact hi.container v h
    · exact ho.container v h
  session r h := by
    simp only [overlay, overlaySession] at h
    split at h <;> cases h
    exact Record.overlay_distinct _ _

/-- A part of the options for which what is laid last wins. -/
def LastWins {β : Type} (part : GroupOptions → Option β) : Prop :=
  ∀ {o i : GroupOptions}, o.Typed → i.Typed → part (o.overlay i) = (part i).or (part o)

theorem layout_lastWins : LastWins layout := by
  intro o i _ _
  simp [overlay]

theorem Typed.distinct {o : GroupOptions} (h : o.Typed) : Record.Distinct (o.session.getD []) := by
  cases hs : o.session with
  | none => exact List.nodup_nil
  | some r => exact h.session r hs

theorem foldl_search {α β : Type} {part : GroupOptions → Option β} (found : α → Option β)
    (step : GroupOptions → α → GroupOptions) {xs : List α}
    (typed : ∀ x ∈ xs, ∀ {o : GroupOptions}, o.Typed → (step o x).Typed)
    (last : ∀ x ∈ xs, ∀ {o : GroupOptions}, o.Typed → part (step o x) = (found x).or (part o))
    {o : GroupOptions} (ho : o.Typed) :
    (xs.foldl step o).Typed ∧
      part (xs.foldl step o) = (xs.reverse.findSome? found).or (part o) := by
  -- Where every step looks at what it lays before what was there, the whole run looks from its end
  -- backwards.
  induction xs generalizing o with
  | nil => exact ⟨ho, rfl⟩
  | cons x xs ih =>
    obtain ⟨rest, search⟩ := ih (fun y hy => typed y (by simp [hy]))
      (fun y hy => last y (by simp [hy])) (typed x (by simp) ho)
    refine ⟨rest, ?_⟩
    rw [List.foldl_cons, search, last x (by simp) ho, List.reverse_cons, List.findSome?_append,
      Option.or_assoc]
    simp

end ViewRouting.GroupOptions

namespace ViewRouting.Router
open GroupOptions

/-- A part of the options of a frame: its own, else the last that its pipelines put. -/
def Frame.search {β : Type} (pipelines : Pipelines) (part : GroupOptions → Option β) (f : Frame) :
    Option β :=
  (part f.group).or ((f.pipes.flatMap fun name => (pipelines.lookup name).getD []).filterMap
    fun plug => part plug.group).getLast?

def FrameTyped (pipelines : Pipelines) (f : Frame) : Prop :=
  f.group.Typed ∧ ∀ plug ∈ f.plugs pipelines, plug.Typed

theorem overlayOnto_search {β : Type} {part : GroupOptions → Option β} (lastWins : LastWins part)
    {pipelines : Pipelines} {f : Frame} (hf : FrameTyped pipelines f) {o : GroupOptions}
    (ho : o.Typed) :
    (f.overlayOnto pipelines o).Typed ∧
      part (f.overlayOnto pipelines o) = (f.search pipelines part).or (part o) := by
  obtain ⟨plugs, search⟩ := foldl_search (fun plug : Plug => part plug.group)
    (fun o plug => o.overlay plug.group) (fun plug hp _ h => overlay_typed h (hf.2 plug hp).group)
    (fun plug hp _ h => lastWins h (hf.2 plug hp).group) ho
  refine ⟨overlay_typed plugs hf.1, ?_⟩
  rw [Frame.overlayOnto, lastWins plugs hf.1, search, Frame.search, List.getLast?_filterMap,
    Option.or_assoc, Frame.plugs]

theorem optionsInEffect_search {β : Type} {part : GroupOptions → Option β}
    (lastWins : LastWins part) (absent : part {} = none) {pipelines : Pipelines}
    {frames : List Frame} (typed : ∀ f ∈ frames, FrameTyped pipelines f) :
    (optionsInEffect pipelines frames).Typed ∧
      part (optionsInEffect pipelines frames) =
        frames.reverse.findSome? (Frame.search pipelines part) := by
  have search := foldl_search (Frame.search pipelines part) (Frame.overlayOnto pipelines)
    (fun f hf _ h => (overlayOnto_search lastWins (typed f hf) h).1)
    (fun f hf _ h => (overlayOnto_search lastWins (typed f hf) h).2) typed_empty
  rw [absent, Option.or_none] at search
  exact search

theorem plugs_typed {d : Draft} (hd : DraftSound d) (f : Frame) :
    ∀ plug ∈ f.plugs d.pipelines, plug.Typed := by
  intro plug hp
  obtain ⟨name, -, hp⟩ := List.mem_flatMap.mp hp
  cases hl : d.pipelines.lookup name with
  | none => simp [hl] at hp
  | some plugs =>
    obtain ⟨before, after, h, -⟩ := List.lookup_eq_some_iff.mp hl
    exact hd.plugs (name, plugs) (by simp [h]) plug (by simpa [hl] using hp)

theorem frames_typed {d : Draft} (hd : DraftSound d) :
    ∀ f ∈ d.frames, FrameTyped d.pipelines f :=
  fun f hf => ⟨(hd.frames f hf).group, plugs_typed hd f⟩

theorem inherited_typed {d : Draft} (hd : DraftSound d) : d.inherited.Typed :=
  (optionsInEffect_search layout_lastWins rfl (frames_typed hd)).1

end ViewRouting.Router

namespace ViewRouting

/-! The options of a route over those that are handed down. -/

namespace GroupOptions

theorem get?_fieldOf (name : String) (option : Option Value) (key : String) :
    Record.get? (fieldOf name option) key = if key = name then option else none := by
  cases option with
  | none =>
    rw [ite_self]
    rfl
  | some v => exact Record.get?_cons (name, v) [] key

def get? (o : GroupOptions) : String → Option Value
  | "layout" => o.layout
  | "session" => o.session.map .record
  | "container" => o.container
  | _ => none

theorem get?_fields (o : GroupOptions) (name : String) :
    Record.get? o.fields name = o.get? name := by
  rw [fields, Record.get?_append, Record.get?_append, get?_fieldOf, get?_fieldOf, get?_fieldOf]
  fun_cases o.get? name with
  | case1 | case2 | case3 => simp
  | case4 name layout session container =>
    rw [if_neg layout, if_neg session, if_neg container]
    rfl

theorem sessionOf_fields (o : GroupOptions) : sessionOf o.fields = o.session := by
  rw [sessionOf, Value.field, get?_fields]
  show ((o.session.map Value.record).getD .undefined).truthy?.map Value.ownFields = o.session
  cases o.session <;> rfl

end GroupOptions

namespace Value

theorem present?_none {r : Record Value} {name : String} (h : present? r name = none) :
    field r name = .undefined := by
  unfold present? defined? at h
  split at h
  · next undefined => exact undefined
  · cases h

theorem present?_some {r : Record Value} {name : String} {v : Value}
    (h : present? r name = some v) : field r name = v := by
  unfold present? defined? at h
  split at h
  · cases h
  · exact Option.some.inj h

end Value

namespace RouteOptions

def Solid (v : Value) : Prop :=
  v.isNullish = false ∧ v.isTruthy

theorem inForce_search {outer inner : Record Value} {name : String} {handed : Option Value}
    (own : ∀ v, Value.present? inner name = some v → Solid v)
    (given : Value.field outer name = handed.getD .undefined) (solid : ∀ v ∈ handed, Solid v) :
    inForce outer inner name = (Value.present? inner name).or handed := by
  rw [inForce, given]
  cases hp : Value.present? inner name with
  | none =>
    rw [Value.present?_none hp]
    cases hh : handed with
    | none => rfl
    | some v =>
      have truthy := (solid v hh).2
      show v.truthy? = some v
      rw [Value.truthy?, if_pos truthy]
  | some v =>
    rw [Value.present?_some hp]
    obtain ⟨there, truthy⟩ := own v hp
    simp [Value.orElse, Value.given?, Value.truthy?, there, truthy]

end RouteOptions

end ViewRouting

namespace ViewRouting.Live
open Router RouteOptions GroupOptions

theorem IsOwnLayout.solid {v : Value} (h : IsOwnLayout v) : Solid v := by
  obtain ⟨_, _, rfl, -⟩ := h
  exact ⟨rfl, rfl⟩

theorem IsOwnContainer.solid {v : Value} (h : IsOwnContainer v) : Solid v := by
  obtain ⟨_, _, _, rfl, -⟩ := h
  exact ⟨rfl, rfl⟩

theorem sessionOf_own {own : Record Value} (grammatical : Grammatical own) :
    sessionOf own = (Value.present? own "session").map Value.ownFields := by
  rw [sessionOf]
  cases hp : Value.present? own "session" with
  | none =>
    rw [Value.present?_none hp]
    rfl
  | some v =>
    rw [Value.present?_some hp]
    obtain ⟨kind, fields, rfl⟩ := grammatical.session v hp
    rfl

section Merge
variable {o : GroupOptions} {own : Record Value}

theorem merge_layout (typed : o.Typed) (grammatical : Grammatical own) :
    (merge o.fields own).layout =
      ((Value.present? own "layout").or o.layout).map Layout.ofValue := by
  have force : inForce o.fields own "layout" = (Value.present? own "layout").or o.layout := by
    apply inForce_search (fun v hv => (grammatical.layout v hv).solid)
      (congrArg (Option.getD · _) (o.get?_fields "layout"))
    intro v hv
    obtain ⟨_, _, rfl⟩ := typed.layout v hv
    exact ⟨rfl, rfl⟩
  rw [merge, force]

theorem merged_layout_texts (typed : o.Typed) (grammatical : Grammatical own) {l : Layout}
    (given : (merge o.fields own).layout = some l) :
    ∃ view template, l = ⟨.string view, .string template⟩ := by
  rw [merge_layout typed grammatical] at given
  obtain ⟨v, hv, rfl⟩ := Option.map_eq_some_iff.mp given
  have pair : v.IsLayout := by
    rcases Option.or_eq_some_iff.mp hv with hv | ⟨-, hv⟩
    · obtain ⟨view, template, rfl, -⟩ := grammatical.layout v hv
      exact ⟨view, template, rfl⟩
    · exact typed.layout v hv
  obtain ⟨view, template, rfl⟩ := pair
  exact ⟨view, template, rfl⟩

theorem merge_container (typed : o.Typed) (grammatical : Grammatical own) :
    (merge o.fields own).container =
      ((Value.present? own "container").or o.container).map Container.ofValue := by
  have force : inForce o.fields own "container" =
      (Value.present? own "container").or o.container := by
    apply inForce_search (fun v hv => (grammatical.container v hv).solid)
      (congrArg (Option.getD · _) (o.get?_fields "container"))
    intro v hv
    obtain ⟨_, _, _, rfl, -⟩ := typed.container v hv
    exact ⟨rfl, rfl⟩
  rw [merge, force]

theorem merged_container_tag (typed : o.Typed) (grammatical : Grammatical own) {e : Container}
    (given : (merge o.fields own).container = some e) : e.tag.IsText := by
  rw [merge_container typed grammatical] at given
  obtain ⟨v, hv, rfl⟩ := Option.map_eq_some_iff.mp given
  rcases Option.or_eq_some_iff.mp hv with hv | ⟨-, hv⟩
  · obtain ⟨tag, _, _, rfl, -⟩ := grammatical.container v hv
    exact ⟨tag, rfl⟩
  · obtain ⟨tag, _, _, rfl, -⟩ := typed.container v hv
    exact ⟨tag, rfl⟩

theorem merge_session (grammatical : Grammatical own) :
    (merge o.fields own).session = (o.overlay
      { session := (Value.present? own "session").map Value.ownFields }).session := by
  rw [merge, sessionOf_fields, ← sessionOf_own grammatical]
  rfl

end Merge

theorem ownFields_orElse {v : Value} {kind : ObjectKind} {own : Record Value}
    (h : v.orElse (.record []) = .object kind own) : v.ownFields = own := by
  cases v with
  | undefined | null | object =>
    cases h
    rfl
  | _ => cases h

end ViewRouting.Live
