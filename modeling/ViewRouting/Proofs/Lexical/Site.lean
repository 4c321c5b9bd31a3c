import ViewRouting.Proofs.Checks
import ViewRouting.Proofs.Segments
import ViewRouting.Router.Draft
import Mathlib.Data.List.TakeWhile

/-! Places in a program. A site is the scope that a step stands in together with the scopes around
it, each as it was opened. What a route gets from its surroundings is read off these openings alone.
The frames of a draft add up the same openings one at a time: `enter_frame` opens one more scope on
both sides, and the frame of a site gives what the site says. -/

namespace ViewRouting.Lexical
open Router

/-- A scope as it was opened, and the pipelines that its own body has piped through so far. -/
structure Opening where
  path : String
  qualifier : Option String
  stem : Value
  group : GroupOptions
  pipes : List String

def Opening.root : Opening :=
  ⟨"/", none, .undefined, {}, []⟩

structure Site where
  here : Opening
  /-- The scopes around, innermost first. -/
  around : List Opening

/-- Names joined by underscores; one name stays the value it is. Names of untyped callers that count
as absent give nothing as long as no other name stands before them. -/
def joinNames (names : List Value) : Value :=
  match names.dropWhile fun name => !name.isTruthy with
  | [] => names.getLast?.getD .undefined
  | [name] => name
  | names => .string (Text.join "_" (names.map Value.text))

namespace Site

def root : Site :=
  ⟨.root, []⟩

def within (s : Site) (o : Opening) : Site :=
  ⟨o, s.here :: s.around⟩

def piping (s : Site) (names : List String) : Site :=
  { s with here := { s.here with pipes := s.here.pipes ++ names } }

/-- All scopes that a step at the site stands in, outermost first. -/
def openings (s : Site) : List Opening :=
  (s.here :: s.around).reverse

def path (s : Site) (own : String) : String :=
  Path.ofSegments (s.openings.flatMap (fun o => Path.segments o.path) ++ Path.segments own)

def qualifiers (s : Site) : List String :=
  s.openings.filterMap Opening.qualifier

/-- A reference stays as it is where no scope gives a qualifier. -/
def qualify (s : Site) (reference : String) : String :=
  match s.qualifiers with
  | [] => reference
  | qualifiers => Naming.concat (qualifiers ++ [reference])

def qualifier (s : Site) : Option String :=
  match s.qualifiers with
  | [] => none
  | qualifiers => some (Naming.concat qualifiers)

def stems (s : Site) : List Value :=
  s.openings.filterMap fun o => o.stem.defined?

def stem (s : Site) : Value :=
  joinNames s.stems

def helper (s : Site) (own : Value) : Value :=
  joinNames (s.stems ++ [own])

def pipes (s : Site) : List String :=
  s.openings.flatMap Opening.pipes

/-- What a scope adds to the options in effect, in order: the layouts of its pipelines, then its own
options. -/
def contributions (pipelines : Pipelines) (o : Opening) : List GroupOptions :=
  (o.pipes.flatMap fun name => (pipelines.lookup name).getD []).map Plug.group ++ [o.group]

def inherited (pipelines : Pipelines) (s : Site) : GroupOptions :=
  (s.openings.flatMap (contributions pipelines)).foldl GroupOptions.overlay {}

def frame (s : Site) : Frame where
  path := s.path "/"
  qualifier := s.qualifier
  stem := s.stem
  group := s.here.group
  pipes := s.here.pipes

def framesAround : List Opening → List Frame
  | [] => []
  | o :: rest => frame ⟨o, rest⟩ :: framesAround rest

def Formed (s : Site) : Prop :=
  ∀ o ∈ s.openings, ∀ q, o.qualifier = some q → Naming.isDotted q

end Site

/-! Opening a scope. -/

def requireStem : Value → Except Fault Unit
  | .undefined => .ok ()
  | name => (readHelper name).map fun _ => ()

/-- A scope as its caller opens it; nothing of its surroundings is looked at. -/
def Opening.read (path : String) (options : Value) : Except Fault Opening := do
  (Path.requireRooted path).mapError .router
  let options ← ScopeOptions.ofValue options
  let qualifier ← readQualifier options.qualifier
  requireStem options.stem
  return ⟨path, qualifier, options.stem, options.group, []⟩

namespace Site

theorem frame_root : root.frame = .root := by
  have path : Path.segments "/" = [] := by decide
  have name : root.path "/" = "/" := by
    simp [root, Site.path, openings, Opening.root, path, Path.ofSegments, Text.join]
  rw [frame, name]
  rfl

@[simp] theorem openings_within (s : Site) (o : Opening) :
    (s.within o).openings = s.openings ++ [o] := by
  simp [within, openings]

@[simp] theorem piping_nil (s : Site) : s.piping [] = s := by
  simp [piping]

theorem piping_append (s : Site) (names more : List String) :
    s.piping (names ++ more) = (s.piping names).piping more := by
  simp [piping]

theorem piping_qualifiers (s : Site) (names : List String) :
    (s.piping names).qualifiers = s.qualifiers := by
  simp only [qualifiers, openings, piping, List.reverse_cons, List.filterMap_append]
  rfl

theorem piping_stems (s : Site) (names : List String) : (s.piping names).stems = s.stems := by
  simp only [stems, openings, piping, List.reverse_cons, List.filterMap_append]
  rfl

theorem piping_frame (s : Site) (names : List String) :
    (s.piping names).frame = { s.frame with pipes := s.frame.pipes ++ names } := by
  simp only [frame, qualifier, piping_qualifiers, stem, piping_stems]
  simp [path, openings, piping]

theorem Formed.piping {s : Site} (h : s.Formed) (names : List String) :
    (s.piping names).Formed := by
  simp only [Formed, openings, Site.piping, List.mem_reverse, List.forall_mem_cons] at h ⊢
  exact h

theorem frame_path (s : Site) (own : String) : Path.join s.frame.path own = s.path own := by
  have clean : ∀ p ∈ s.openings.flatMap (fun o => Path.segments o.path),
      '/' ∉ p.toList ∧ p ≠ "" := by
    intro p hp
    obtain ⟨o, -, hp⟩ := List.mem_flatMap.mp hp
    exact Path.segments_clean o.path p hp
  have root : Path.segments "/" = [] := by decide
  rw [frame, path, root, List.append_nil, Path.join, Path.segments_ofSegments clean, path]

theorem path_within (s : Site) (o : Opening) : (s.within o).path "/" = s.path o.path := by
  have root : Path.segments "/" = [] := by decide
  simp [path, root]

theorem qualifiers_within (s : Site) (o : Opening) :
    (s.within o).qualifiers = s.qualifiers ++ o.qualifier.toList := by
  rw [qualifiers, openings_within, List.filterMap_append, qualifiers]
  cases h : o.qualifier <;> simp [h]

theorem frame_qualifier_within (s : Site) (o : Opening) :
    (s.within o).frame.qualifier = extendQualifier s.frame.qualifier o.qualifier := by
  simp only [frame, qualifier, qualifiers_within]
  cases ho : o.qualifier with
  | none => simp [extendQualifier]
  | some q =>
    cases hs : s.qualifiers with
    | nil => simp [extendQualifier, Naming.concat_eq]
    | cons r rest =>
      simp only [extendQualifier, Option.toList, List.cons_append, Option.getD_some,
        Naming.concat_concat]

theorem Formed.qualifiers_dotted {s : Site} (h : s.Formed) :
    ∀ q ∈ s.qualifiers, Naming.isDotted q := by
  intro q hq
  obtain ⟨o, ho, hq⟩ := List.mem_filterMap.mp hq
  exact h o ho q hq

theorem frame_qualify {s : Site} (h : s.Formed) (reference : String) :
    s.frame.qualify reference = s.qualify reference := by
  simp only [Frame.qualify, qualify, frame, qualifier]
  cases hs : s.qualifiers with
  | nil => rfl
  | cons q rest =>
    have dotted : ∀ i ∈ q :: rest, Naming.isDotted i := hs ▸ h.qualifiers_dotted
    have hc : Naming.isDotted (Naming.concat (q :: rest)) := by
      apply Naming.concat_dotted
      · exact fun i hi => .inr (dotted i hi)
      · exact ⟨q, by simp, Naming.isDotted_ne_empty (dotted q (by simp))⟩
    have ne := Naming.isDotted_ne_empty hc
    simp only
    exact Naming.concat_concat (q :: rest) [reference]

end Site

/-! Joined names. -/

theorem join_ne_empty (first second : String) (rest : List String) :
    Text.join "_" (first :: second :: rest) ≠ "" := by
  intro h
  have := congrArg String.toList h
  simp [Text.join] at this

theorem joinNames_concat (names : List Value) (name : Value) :
    joinNames (names ++ [name]) =
      if (joinNames names).isTruthy then .string ((joinNames names).text ++ "_" ++ name.text)
      else name := by
  have text (s : String) : (Value.string s).text = s := rfl
  rw [joinNames, List.dropWhile_append, joinNames]
  cases h : names.dropWhile fun name => !name.isTruthy with
  | nil =>
    have falsy : (names.getLast?.getD .undefined).isTruthy = false := by
      cases hl : names.getLast? with
      | none => rfl
      | some last =>
        have := List.dropWhile_eq_nil_iff.mp h last (List.mem_of_getLast? hl)
        simpa using this
    by_cases hn : name.isTruthy <;> simp [hn, falsy]
  | cons first rest =>
    cases rest with
    | nil =>
      have truthy : first.isTruthy := by
        have := List.head_dropWhile_not (fun name : Value => !name.isTruthy) (l := names)
          (by simp [h])
        simpa [h] using this
      simp [truthy, Text.join]
    | cons second rest =>
      have truthy :
          (Value.string (Text.join "_" ((first :: second :: rest).map Value.text))).isTruthy := by
        simpa [Value.isTruthy] using join_ne_empty first.text second.text (rest.map Value.text)
      have joined : Text.join "_" ((first :: second :: rest ++ [name]).map Value.text) =
          Text.join "_" ((first :: second :: rest).map Value.text) ++ "_" ++ name.text := by
        rw [List.map_append, Text.join, String.intercalate_append_of_ne_nil (by simp) (by simp)]
        simp [Text.join]
      simp only [truthy, if_true, text, ← joined]
      simp

theorem dropWhile_texts {names : List String} (full : ∀ n ∈ names, n ≠ "") :
    (names.map Value.string).dropWhile (fun name => !name.isTruthy) = names.map Value.string := by
  cases names with
  | nil => rfl
  | cons n rest => simp [Value.isTruthy, full n (by simp)]

theorem joinNames_texts {names : List String} (full : ∀ n ∈ names, n ≠ "") (some : names ≠ []) :
    joinNames (names.map Value.string) = .string (Text.join "_" names) := by
  rw [joinNames, dropWhile_texts full]
  match names with
  | [] => exact absurd rfl some
  | [n] => simp [Text.join]
  | n :: m :: rest =>
    have texts : ((n :: m :: rest).map Value.string).map Value.text = n :: m :: rest := by
      rw [List.map_map]
      exact List.map_id _
    exact congrArg (fun texts => Value.string (Text.join "_" texts)) texts

namespace Site

theorem helper_texts (s : Site) {stems : List String} {own : String}
    (given : s.stems = stems.map Value.string) (full : ∀ n ∈ stems, n ≠ "") (named : own ≠ "") :
    s.helper (.string own) = .string (Text.join "_" (stems ++ [own])) := by
  have all : ∀ n ∈ stems ++ [own], n ≠ "" := by
    intro n hn
    rcases List.mem_append.mp hn with hn | hn
    · exact full n hn
    · rw [List.mem_singleton.mp hn]
      exact named
  rw [helper, given, ← joinNames_texts all (by simp), List.map_append]
  rfl

theorem stems_within (s : Site) (o : Opening) :
    (s.within o).stems = s.stems ++ o.stem.defined?.toList := by
  rw [stems, openings_within, List.filterMap_append, stems]
  cases h : o.stem.defined? <;> simp [h]

theorem helperUnder_frame (s : Site) (own : Value) :
    helperUnder s.frame.stem own = (readHelper own).map fun _ => s.helper own := by
  rw [helperUnder, helper, joinNames_concat, frame, stem]
  cases h : readHelper own with
  | error fault => rfl
  | ok text => rw [text_of_readHelper h]; rfl

theorem extendStem_frame (s : Site) (o : Opening) :
    extendStem s.frame.stem o.stem = (requireStem o.stem).map fun _ => (s.within o).frame.stem := by
  simp only [frame, stem, stems_within]
  cases h : o.stem with
  | undefined => simp [extendStem, requireStem, Value.defined?, Except.map]
  | _ =>
    simp only [extendStem, requireStem, Value.defined?]
    exact (helperUnder_frame s _).trans (by cases readHelper _ <;> rfl)

theorem enter_frame (s : Site) (path : String) (options : Value) :
    s.frame.enter path options = (Opening.read path options).map fun o => (s.within o).frame := by
  rw [Frame.enter, Opening.read]
  cases Path.requireRooted path with
  | error fault => rfl
  | ok _ =>
    cases ScopeOptions.ofValue options with
    | error fault => rfl
    | ok options =>
      simp only [bind, Except.bind]
      cases readQualifier options.qualifier with
      | error fault => rfl
      | ok qualifier =>
        let o : Opening := ⟨path, qualifier, options.stem, options.group, []⟩
        simp only [show extendStem s.frame.stem options.stem = _ from s.extendStem_frame o]
        cases requireStem options.stem with
        | error fault => rfl
        | ok _ =>
          simp only [Except.map, pure, Except.pure]
          rw [frame_path, ← path_within s o, ← frame_qualifier_within s o]
          rfl

/-! What the frames around a site hand down. -/

theorem framesAround_pipes (os : List Opening) :
    (framesAround os).map Frame.pipes = os.map Opening.pipes := by
  induction os with
  | nil => rfl
  | cons o rest ih => simp [framesAround, ih, frame]

theorem overlayOnto_frame (pipelines : Pipelines) (outer : GroupOptions) (s : Site) :
    s.frame.overlayOnto pipelines outer =
      (contributions pipelines s.here).foldl GroupOptions.overlay outer := by
  simp [Frame.overlayOnto, contributions, List.foldl_map, Frame.plugs, frame]

theorem optionsInEffect_framesAround (pipelines : Pipelines) (os : List Opening) :
    optionsInEffect pipelines (framesAround os).reverse =
      (os.reverse.flatMap (contributions pipelines)).foldl GroupOptions.overlay {} := by
  rw [optionsInEffect]
  induction os with
  | nil => rfl
  | cons o rest ih =>
    simp only [framesAround, List.reverse_cons, List.foldl_append, ih, List.flatMap_append]
    simpa using overlayOnto_frame pipelines _ ⟨o, rest⟩

end Site

end ViewRouting.Lexical
