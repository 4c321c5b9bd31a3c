import Mathlib.Data.List.Forall2
import ViewRouting.Proofs.Lowering
import ViewRouting.Trace.Switchboard

/-! Runs of the trace desk. A channel keeps what the last refresh before it was handed out has
decided, although it may have been made long before or after, and although the setting may have
changed since; a message is written in the style of the moment. What is said of a run is read off
its commands: no channel and no list of keys occurs in it. -/

namespace ViewRouting.Trace

/-- Whether a setting turns a key on: it stands for all keys, or one of its entries is the key or a
star. -/
def Enables : Option String → String → Prop
  | none, _ => False
  | some s, key =>
    s ∉ ["", "0", "false"] ∧
      (s ∈ ["*", "1", "true"] ∨
        ∃ entry ∈ Text.split ',' s, keyOf entry = key ∨ keyOf entry = "*")

instance (setting : Option String) (key : String) : Decidable (Enables setting key) :=
  match setting with
  | none => inferInstanceAs (Decidable False)
  | some _ => inferInstanceAs (Decidable (_ ∧ _))

theorem isOn_iff (setting : Option String) {key : String} (lower : Text.lower key = key) :
    isOn (keysOn setting) key ↔ Enables setting key := by
  rw [isOn, lower]
  cases setting with
  | none => simp [keysOn, Enables]
  | some s =>
    rw [keysOn, Enables]
    by_cases none : s ∈ ["", "0", "false"]
    · simp only [List.contains_iff_mem, none]
      simp
    · by_cases all : s ∈ ["*", "1", "true"]
      · simp only [List.contains_iff_mem, none, all]
        simp
      · simp only [List.contains_iff_mem, none, all, if_false, Bool.or_eq_true, List.mem_map]
        simp only [not_false_eq_true, true_and, false_or]
        constructor
        · rintro (⟨entry, he, h⟩ | ⟨entry, he, h⟩)
          · exact ⟨entry, he, .inr h⟩
          · exact ⟨entry, he, .inl h⟩
        · rintro ⟨entry, he, h | h⟩
          · exact .inr ⟨entry, he, h⟩
          · exact .inl ⟨entry, he, h⟩

def Source.key? : Source → Option String
  | .slot _ => none
  | .builtin topic => some topic.key
  | .named name => some (keyOf name)

def Channel.keyed (keys : List String) (key : String) : Channel :=
  if key = "" then .silent else .make keys key

/-- Every channel on the board is what the keys in force make of it. -/
structure Switchboard.Kept (b : Switchboard) : Prop where
  builtin : ∀ topic, b.builtin topic = .make b.keys topic.key
  others : ∀ c ∈ b.others, c = .make b.keys c.key

theorem refresh_kept (b : Switchboard) : b.refresh.Kept where
  builtin topic := by cases topic <;> rfl
  others c hc := by
    obtain ⟨old, -, rfl⟩ := List.mem_map.mp hc
    rfl

theorem lookup_keyed {b : Switchboard} (kept : b.Kept) (name : String) :
    (b.lookup name).1 = .keyed b.keys (keyOf name) := by
  rw [Switchboard.lookup, Channel.keyed]
  by_cases blank : keyOf name = ""
  · simp only [blank, if_true]
  · simp only [blank, if_false]
    cases found : b.others.find? (·.key = keyOf name) with
    | some c =>
      have same : c.key = keyOf name := by simpa using List.find?_some found
      have made := kept.others c (List.mem_of_find?_eq_some found)
      rwa [same] at made
    | none => rfl

theorem lookup_left (b : Switchboard) (name : String) :
    ∃ others, (b.lookup name).2 = { b with others := others } ∧
      (b.Kept → Switchboard.Kept { b with others := others }) := by
  rw [Switchboard.lookup]
  by_cases blank : keyOf name = ""
  · simp only [blank, if_true]
    exact ⟨b.others, rfl, id⟩
  · simp only [blank, if_false]
    cases b.others.find? (·.key = keyOf name) with
    | some c => exact ⟨b.others, rfl, id⟩
    | none =>
      refine ⟨b.others ++ [.make b.keys (keyOf name)], rfl, fun kept => ⟨kept.builtin, ?_⟩⟩
      intro c hc
      rcases List.mem_append.mp hc with hc | hc
      · exact kept.others c hc
      · rw [List.mem_singleton.mp hc]
        rfl

namespace Desk

theorem channel_keyed {d : Desk} (kept : d.board.Kept) {source : Source} {key : String}
    (h : source.key? = some key) : (d.channel source).1 = .keyed d.board.keys key := by
  cases source with
  | slot => cases h
  | builtin topic =>
    obtain rfl := Option.some.inj h
    have full : topic.key ≠ "" := by cases topic <;> decide
    rw [channel, Channel.keyed, if_neg full]
    exact kept.builtin topic
  | named name =>
    obtain rfl := Option.some.inj h
    simp only [channel]
    exact lookup_keyed kept name

theorem channel_left (d : Desk) (source : Source) :
    ∃ others, (d.channel source).2 = { d with board := { d.board with others := others } } ∧
      (d.board.Kept → Switchboard.Kept { d.board with others := others }) := by
  cases source with
  | slot | builtin => exact ⟨d.board.others, rfl, id⟩
  | named name =>
    obtain ⟨others, left, kept⟩ := lookup_left d.board name
    exact ⟨others, by rw [channel, left], kept⟩

theorem send_left (d : Desk) (source : Source) (point : String) (data : Value) :
    (d.run (.send source point data)).2 = (d.channel source).2 := by
  simp only [run]
  split <;> rfl

def after (d : Desk) (cs : List Command) : Desk :=
  (d.runAll cs).2

theorem runAll_cons (d : Desk) (c : Command) (cs : List Command) :
    d.runAll (c :: cs) = ((d.run c).1 :: ((d.run c).2.runAll cs).1, (d.run c).2.after cs) := rfl

theorem after_cons (d : Desk) (c : Command) (cs : List Command) :
    d.after (c :: cs) = (d.run c).2.after cs := rfl

theorem after_append (d : Desk) (cs cs' : List Command) :
    d.after (cs ++ cs') = (d.after cs).after cs' := by
  induction cs generalizing d with
  | nil => rfl
  | cons c cs ih => rw [List.cons_append, after_cons, after_cons, ih]

theorem reply_at (d : Desk) (cs : List Command) (c : Command) (rest : List Command) :
    (d.runAll (cs ++ c :: rest)).1[cs.length]? = some ((d.after cs).run c).1 := by
  induction cs generalizing d with
  | nil => rfl
  | cons first cs ih =>
    rw [List.cons_append, runAll_cons, after_cons, List.length_cons, List.getElem?_cons_succ]
    exact ih _

end Desk

/-! What is read off commands. -/

def assigned (setting : Option String) : List Command → Option String
  | [] => setting
  | .assign s :: cs => assigned s cs
  | _ :: cs => assigned setting cs

def configured (style : Style) : List Command → Style
  | [] => style
  | .configure format timestamps :: cs =>
    configured ⟨format.getD style.format, timestamps.getD style.timestamps⟩ cs
  | _ :: cs => configured style cs

/-- What comes of a message: one text, or the fault of writing it, if its channel is heard, and
nothing if not. -/
def answer (heard : Prop) [Decidable heard] (m : Message) (style : Style) (now : Instant) : Reply :=
  if heard then
    match m.text style now with
    | .ok text => ⟨.ok none, [text]⟩
    | .error fault => ⟨.error fault, []⟩
  else ⟨.ok none, []⟩

theorem assigned_cons (setting : Option String) (c : Command) (cs : List Command) :
    assigned setting (c :: cs) = assigned (assigned setting [c]) cs := by
  cases c <;> rfl

theorem configured_cons (style : Style) (c : Command) (cs : List Command) :
    configured style (c :: cs) = configured (configured style [c]) cs := by
  cases c <;> rfl

namespace Desk

/-- What commands do to a desk, as far as it can be read off them. -/
structure Moved (d d' : Desk) (cs : List Command) : Prop where
  kept : d.board.Kept → d'.board.Kept
  setting : d'.board.setting = assigned d.board.setting cs
  style : d'.board.style = configured d.board.style cs
  clock : d'.board.clock = d.board.clock
  keys : .refresh ∉ cs → d'.board.keys = d.board.keys
  slots : ∀ slot, (∀ source, .hold slot source ∉ cs) →
    d'.slots.lookup slot = d.slots.lookup slot

theorem run_moved (d : Desk) (c : Command) : Moved d (d.run c).2 [c] := by
  cases c with
  | assign | configure =>
    exact ⟨fun kept => ⟨kept.builtin, kept.others⟩, rfl, rfl, rfl, fun _ => rfl, fun _ _ => rfl⟩
  | refresh =>
    exact ⟨fun _ => refresh_kept d.board, rfl, rfl, rfl, fun h => absurd (.head _) h, fun _ _ => rfl⟩
  | enabled => exact ⟨id, rfl, rfl, rfl, fun _ => rfl, fun _ _ => rfl⟩
  | hold slot source =>
    obtain ⟨others, left, kept⟩ := channel_left d source
    simp only [run, left]
    refine ⟨kept, rfl, rfl, rfl, fun _ => rfl, fun other apart => ?_⟩
    have different : (other == slot) = false := by
      rw [beq_eq_false_iff_ne]
      rintro rfl
      exact apart source (.head _)
    simp only [List.lookup_cons, different]
  | send source point data =>
    obtain ⟨others, left, kept⟩ := channel_left d source
    rw [send_left, left]
    exact ⟨kept, rfl, rfl, rfl, fun _ => rfl, fun _ _ => rfl⟩

theorem after_moved (d : Desk) (cs : List Command) : Moved d (d.after cs) cs := by
  induction cs generalizing d with
  | nil => exact ⟨id, rfl, rfl, rfl, fun _ => rfl, fun _ _ => rfl⟩
  | cons c cs ih =>
    have first := run_moved d c
    have rest := ih (d.run c).2
    rw [after_cons]
    exact {
      kept := fun kept => rest.kept (first.kept kept)
      setting := by rw [rest.setting, first.setting, ← assigned_cons]
      style := by rw [rest.style, first.style, ← configured_cons]
      clock := rest.clock.trans first.clock
      keys := by
        intro h
        rw [List.mem_cons, not_or] at h
        rw [rest.keys h.2, first.keys (by simpa using h.1)]
      slots := by
        intro slot h
        simp only [List.mem_cons, not_or] at h
        rw [rest.slots slot fun source => (h source).2,
          first.slots slot fun source => by simpa using (h source).1] }

theorem after_refresh (d : Desk) (early : List Command) {late : List Command}
    (last : .refresh ∉ late) :
    let left := d.after (early ++ .refresh :: late)
    left.board.Kept ∧ left.board.keys = keysOn (assigned d.board.setting early) := by
  have before := after_moved d early
  have since := after_moved ((d.after early).run .refresh).2 late
  rw [after_append, after_cons]
  refine ⟨since.kept (refresh_kept _), (since.keys last).trans ?_⟩
  rw [← before.setting]
  rfl

theorem send_answer (d : Desk) (source : Source) (point : String) (data : Value) :
    (d.run (.send source point data)).1 =
      answer ((d.channel source).1.active = true) ⟨(d.channel source).1.key, point, data⟩
        d.board.style d.board.clock := by
  obtain ⟨others, left, -⟩ := channel_left d source
  simp only [run, left, answer, Switchboard.send, Channel.send]
  cases (d.channel source).1.active with
  | false => rfl
  | true =>
    cases Message.text ⟨(d.channel source).1.key, point, data⟩ d.board.style d.board.clock <;> rfl

end Desk

theorem answer_congr {p q : Prop} [Decidable p] [Decidable q] (same : p ↔ q) (m : Message)
    (style : Style) (now : Instant) : answer p m style now = answer q m style now := by
  simp only [answer, same]

theorem keyed_answer {setting : Option String} {key : String} (lower : Text.lower key = key)
    (point : String) (data : Value) (style : Style) (now : Instant) :
    let c := Channel.keyed (keysOn setting) key
    answer (c.active = true) ⟨c.key, point, data⟩ style now =
      answer (key ≠ "" ∧ Enables setting key) ⟨key, point, data⟩ style now := by
  have named : (Channel.keyed (keysOn setting) key).key = key := by
    rw [Channel.keyed]
    split
    · next blank => exact blank.symm
    · rfl
  simp only [named]
  apply answer_congr
  rw [Channel.keyed]
  split
  · next blank => simp [blank, Channel.silent]
  · next full => simp [full, Channel.make, isOn_iff setting lower]

/-! Names with the same key. -/

/-- The same source, or two that are looked up by the same key. -/
inductive Source.Alike : Source → Source → Prop
  | refl (source : Source) : Alike source source
  | keyed {source source' : Source} {key : String} (first : source.key? = some key)
      (second : source'.key? = some key) : Alike source source'

inductive Command.Alike : Command → Command → Prop
  | refl (c : Command) : Alike c c
  | hold (slot : String) {source source' : Source} (h : source.Alike source') :
      Alike (.hold slot source) (.hold slot source')
  | send {source source' : Source} (h : source.Alike source') (point : String) (data : Value) :
      Alike (.send source point data) (.send source' point data)

namespace Desk

/-- Desks that differ at most in the channels that were looked up. -/
structure Alike (d d' : Desk) : Prop where
  first : d.board.Kept
  second : d'.board.Kept
  rest : d' = { d with board := { d.board with others := d'.board.others } }

namespace Alike
variable {d d' : Desk}

theorem channel (h : Alike d d') {source source' : Source} (same : source.Alike source') :
    (d.channel source).1 = (d'.channel source').1 ∧
      Alike (d.channel source).2 (d'.channel source').2 := by
  have keys : d'.board.keys = d.board.keys := by rw [h.rest]
  constructor
  · cases same with
    | keyed first second =>
      rw [channel_keyed h.first first, channel_keyed h.second second, keys]
    | refl =>
      cases source with
      | slot name =>
        rw [h.rest]
        rfl
      | builtin topic | named name =>
        rw [channel_keyed h.first rfl, channel_keyed h.second rfl, keys]
  · obtain ⟨others, left, kept⟩ := channel_left d source
    obtain ⟨others', left', kept'⟩ := channel_left d' source'
    rw [left, left']
    exact ⟨kept h.first, kept' h.second, by conv_lhs => rw [h.rest]⟩

theorem hold (h : Alike d d') (slot : String) {source source' : Source}
    (same : source.Alike source') :
    (d.run (.hold slot source)).1 = (d'.run (.hold slot source')).1 ∧
      Alike (d.run (.hold slot source)).2 (d'.run (.hold slot source')).2 := by
  obtain ⟨channel, left⟩ := h.channel same
  simp only [Desk.run, channel]
  exact ⟨trivial, left.first, left.second, by conv_lhs => rw [left.rest]⟩

theorem send (h : Alike d d') {source source' : Source} (same : source.Alike source')
    (point : String) (data : Value) :
    (d.run (.send source point data)).1 = (d'.run (.send source' point data)).1 ∧
      Alike (d.run (.send source point data)).2 (d'.run (.send source' point data)).2 := by
  obtain ⟨channel, left⟩ := h.channel same
  have style : d'.board.style = d.board.style := by rw [h.rest]
  have clock : d'.board.clock = d.board.clock := by rw [h.rest]
  rw [send_answer, send_answer, channel, style, clock, send_left, send_left]
  exact ⟨rfl, left⟩

theorem run (h : Alike d d') {c c' : Command} (same : c.Alike c') :
    (d.run c).1 = (d'.run c').1 ∧ Alike (d.run c).2 (d'.run c').2 := by
  cases same with
  | hold slot same => exact h.hold slot same
  | send same point data => exact h.send same point data
  | refl =>
    have kept := (run_moved d c).kept h.first
    have kept' := (run_moved d' c).kept h.second
    cases c with
    | hold slot source => exact h.hold slot (.refl source)
    | send source point data => exact h.send (.refl source) point data
    | assign | refresh | configure | enabled =>
      obtain ⟨first, second, rest⟩ := h
      generalize d'.board.others = others at rest
      subst rest
      exact ⟨rfl, kept, kept', rfl⟩

theorem runAll (h : Alike d d') {cs cs' : List Command} (same : List.Forall₂ Command.Alike cs cs') :
    (d.runAll cs).1 = (d'.runAll cs').1 := by
  induction same generalizing d d' with
  | nil => rfl
  | cons first _ ih =>
    obtain ⟨reply, left⟩ := h.run first
    rw [runAll_cons, runAll_cons, reply, ih left]

end Alike

end Desk

end ViewRouting.Trace
