import ViewRouting.Proofs.Courses

/-! The helper that a handler names. Where a route is given no helper, the last segment of its
handler says one, without the suffix of handlers where something stands before that. The suffix is
whatever text the router was configured with. What is left of a segment is a segment all the same,
so that such a route is never refused for its helper. -/

namespace ViewRouting.Router
open Naming

/-- The segment ends in the suffix, and something stands before it. -/
def EndsProperly (suffix segment : String) : Prop :=
  suffix ≠ "" ∧ segment ≠ suffix ∧ suffix.toList <:+ segment.toList

instance (suffix segment : String) : Decidable (EndsProperly suffix segment) :=
  inferInstanceAs (Decidable (_ ∧ _))

/-- What a segment says of a handler. -/
inductive StemOf (suffix : String) : String → String → Prop where
  | parted {stem : String} (proper : EndsProperly suffix (stem ++ suffix)) :
    StemOf suffix (stem ++ suffix) stem
  | whole {segment : String} (other : ¬EndsProperly suffix segment) :
    StemOf suffix segment segment

namespace StemOf
variable {suffix segment stem : String}

theorem exists_stem (suffix segment : String) : ∃ stem, StemOf suffix segment stem := by
  by_cases proper : EndsProperly suffix segment
  · obtain ⟨stem, rfl⟩ := Live.stem_of_ending proper.2.2
    exact ⟨stem, .parted proper⟩
  · exact ⟨segment, .whole proper⟩

theorem isSegment (h : StemOf suffix segment stem) (valid : Naming.isSegment segment) :
    Naming.isSegment stem := by
  cases h with
  | whole => exact valid
  | parted proper =>
    apply isSegment_prefix _ valid
    rintro rfl
    exact proper.2.1 String.empty_append

theorem handlerStem (h : StemOf suffix segment stem) :
    Draft.handlerStem (.string suffix) segment = .ok ⟨stem, none⟩ := by
  have read : readText (.string suffix) = .ok suffix := rfl
  have truthy : (Value.string suffix).isTruthy ↔ suffix ≠ "" := by simp [Value.isTruthy]
  have test : (endsWith suffix segment && (Value.string suffix).asString? != some segment) ↔
      suffix.toList <:+ segment.toList ∧ suffix ≠ segment := by
    simp [endsWith_iff, Value.asString?]
  rw [Draft.handlerStem]
  cases h with
  | parted proper =>
    obtain ⟨full, longer, ending⟩ := proper
    have dropped : dropEnding (.string suffix) (stem ++ suffix) = ⟨stem, none⟩ := by
      simp [dropEnding, dropSuffix]
    have passed := test.mpr ⟨ending, longer.symm⟩
    rw [if_pos (truthy.mpr full), read, ← dropped]
    simp only [bind, Except.bind, passed, if_true]
    rfl
  | whole other =>
    by_cases full : suffix = ""
    · rw [if_neg (mt truthy.mp (not_not_intro full))]
    · have failed := mt test.mp fun h => other ⟨full, h.2.symm, h.1⟩
      rw [if_pos (truthy.mpr full), read]
      simp only [bind, Except.bind, failed]
      rfl

theorem unique {stem' : String} (h : StemOf suffix segment stem)
    (h' : StemOf suffix segment stem') : stem = stem' := by
  cases h.handlerStem.symm.trans h'.handlerStem
  rfl

theorem handlerHelper {handler : String} (last : segment ∈ (segments handler).getLast?)
    (h : StemOf suffix segment stem) :
    Draft.handlerHelper (.string suffix) handler = .ok (snakeCase stem) := by
  rw [Draft.handlerHelper, last, Option.getD_some, h.handlerStem]
  rfl

end StemOf

def underStem (stem : Value) (own : String) : String :=
  match stem with
  | .string s => s ++ "_" ++ own
  | _ => own

theorem underStem_isHelper {stem : Value} (hs : stem = .undefined ∨ IsHelperText stem)
    {own : String} (valid : isHelper own) :
    isHelper (underStem stem own) ∧
      helperUnder stem (.string own) = .ok (.string (underStem stem own)) := by
  have read : readHelper (.string own) = .ok own := readHelper_ok.mpr ⟨rfl, valid⟩
  rw [helperUnder, read]
  rcases hs with rfl | ⟨s, rfl, hs⟩
  · exact ⟨valid, rfl⟩
  · have truthy : (Value.string s).isTruthy := by
      simpa [Value.isTruthy] using isHelper_ne_empty hs
    refine ⟨isHelper_concat hs valid, ?_⟩
    simp only [bind, Except.bind, truthy, if_true]
    rfl

/-- Options that are given as a bag, or left out, and have no helper. -/
structure Unnamed (options : Value) : Prop where
  given : options ≠ .null
  unnamed : (Value.field options.ownFields "as").isNullish

theorem Unnamed.read {options : Value} (h : Unnamed options) :
    ∃ asked, AddOptions.ofValue options = .ok asked ∧ asked.helper.isNullish := by
  obtain ⟨given, unnamed⟩ := h
  by_cases left : options = .undefined
  · subst left
    exact ⟨{}, rfl, rfl⟩
  · have bag : options.isNullish = false := by
      cases options <;> first | rfl | contradiction
    refine ⟨.ofFields options.ownFields, ?_, unnamed⟩
    have read : AddOptions.ofValue options = options.requireFields.map AddOptions.ofFields := by
      cases options <;> first | rfl | contradiction
    rw [read, Value.requireFields, bag]
    rfl

end ViewRouting.Router

namespace ViewRouting.Session
open Naming Router Live Drafting

theorem takes_unnamed {d : Draft} (hd : DraftSound d) (unfinished : d.finished = false)
    {suffix : String} (configured : d.handlerSuffix = .string suffix) {path handler : String}
    (rooted : Path.isRooted path) (dotted : isDotted handler) {options : Value}
    (unnamed : Unnamed options) {last stem : String} (ending : last ∈ (segments handler).getLast?)
    (h : StemOf suffix last stem) (verb action : String) :
    ∃ e, Takes (addGiven verb path handler action options) d
        ⟨.ok e, { d with entries := d.entries ++ [e] }, [e.event]⟩ ∧
      e.helper = .string (underStem d.current.stem (snakeCase stem)) ∧
      isHelper (underStem d.current.stem (snakeCase stem)) := by
  obtain ⟨asked, read, nullish⟩ := unnamed.read
  have segment : isSegment last := List.all_eq_true.mp dotted last (List.mem_of_getLast? ending)
  have stemSound := (hd.frames d.current (by simp [Draft.frames])).stem
  obtain ⟨valid, joined⟩ := underStem_isHelper stemSound (snakeCase_isHelper (h.isSegment segment))
  have own : d.ownHelper asked.helper handler = .ok (.string (snakeCase stem)) := by
    rw [Draft.ownHelper, if_pos nullish, configured, h.handlerHelper ending]
    rfl
  let r : Registration := ⟨verb, path, handler, action, asked⟩
  let e := d.entry r (.string (underStem d.current.stem (snakeCase stem)))
  have accepted : d.accept r = .ok e :=
    Draft.accept_ok.mpr ⟨unfinished, rooted, _, _, own, joined, rfl⟩
  have added := takes_accepted accepted ⟨_, rfl, valid⟩
  have passed : Path.requireRooted path = .ok () := by rw [Path.requireRooted, if_pos rooted]
  exact ⟨e, takes_addGiven_read unfinished passed read added, rfl, valid⟩

/-- For every suffix of handlers there is one reading of last segments, and an open draft with that
suffix adds every route that comes with a sound path and handler and without a helper, whatever
scopes it stands in. What the helper says of the route is that reading of the last segment of its
handler, and nothing else of the handler, the route or the draft has a part in it. -/
theorem handler_inference (suffix : String) :
    ∃ own : String → String,
      (∀ segment, ∃ stem, StemOf suffix segment stem ∧ own segment = snakeCase stem) ∧
      ∀ (d : Draft) (verb path handler action : String) (options : Value),
        Reachable d → d.finished = false → d.handlerSuffix = .string suffix →
        Path.isRooted path → isDotted handler → Unnamed options →
        ∃ last e, last ∈ (segments handler).getLast? ∧
          Takes (addGiven verb path handler action options) d
            ⟨.ok e, { d with entries := d.entries ++ [e] }, [e.event]⟩ ∧
          e.helper = .string (underStem d.current.stem (own last)) ∧
          isHelper (underStem d.current.stem (own last)) := by
  choose stem stems using StemOf.exists_stem suffix
  refine ⟨fun segment => snakeCase (stem segment), fun segment => ⟨_, stems segment, rfl⟩, ?_⟩
  intro d verb path handler action options reachable unfinished configured rooted dotted unnamed
  have sound := reachable_sound reachable
  obtain ⟨last, ending⟩ := Option.isSome_iff_exists.mp
    (List.getLast?_isSome.mpr (segments_ne_nil handler))
  obtain ⟨e, taken, helper⟩ :=
    takes_unnamed sound unfinished configured rooted dotted unnamed ending (stems last) verb action
  exact ⟨last, e, ending, taken, helper⟩

theorem handler_inference_scoped :
    ∃ (d : Draft) (e : Entry), Reachable d ∧ d.enclosing ≠ [] ∧
      Takes (addGiven "GET" "/users" "Accounts.UserController" "index" .undefined) d
        ⟨.ok e, { d with entries := d.entries ++ [e] }, [e.event]⟩ ∧
      e.helper = .string "admin_user" := by
  let journal : Trace.Journal := ⟨.fresh none {} .epoch, []⟩
  let asked : Value := .record [("as", .string "admin")]
  let start : Draft := { name := "App.Router", handlerSuffix := .string "Controller" }
  let d : Draft := leftBy (enterScope "/admin" asked) start journal
  have scope : asked.IsScopeOptions :=
    .inr ⟨.ordinary, _, rfl, .inl rfl, .inr ⟨"admin", rfl⟩, .inl rfl, .inl rfl, .inl rfl⟩
  have reachable : Reachable d :=
    ⟨"App.Router", {}, start, ⟨"Controller", rfl⟩, if_pos (by decide),
      .single (.enter "/admin" journal scope)⟩
  have inside : d.finished = false ∧ d.handlerSuffix = .string "Controller" ∧ d.enclosing ≠ [] ∧
      d.current.stem = .string "admin" := ⟨rfl, rfl, nofun, rfl⟩
  obtain ⟨unfinished, configured, enclosed, stemmed⟩ := inside
  obtain ⟨own, reads, adds⟩ := handler_inference "Controller"
  obtain ⟨last, e, ending, taken, helper, -⟩ :=
    adds d "GET" "/users" "Accounts.UserController" "index" .undefined reachable unfinished
      configured (by decide) (by decide) ⟨nofun, rfl⟩
  obtain ⟨stem, of, said⟩ := reads last
  have user : StemOf "Controller" "UserController" "User" :=
    @StemOf.parted "Controller" "User" (by decide)
  obtain rfl : last = "UserController" := Option.mem_unique ending (by decide)
  cases of.unique user
  have full : underStem (.string "admin") (snakeCase "User") = "admin_user" := by decide
  exact ⟨d, e, reachable, enclosed, taken, by rw [helper, stemmed, said, full]⟩

end ViewRouting.Session
