import Mathlib.Data.List.DropRight
import ViewRouting.Proofs.Messages
import ViewRouting.Proofs.SnakeForm

/-! Queries and channels. A query takes a name as it is, but for its case, and a channel is looked
up by the name without the blanks around it. No key has blanks around it: of a name that has some, a
query denies that it is on, unless all names are on, although its channel may be heard. Of all other
names a query tells what a message shows. A query without a name tells whether any channel is heard,
but for a setting of nothing but commas and blanks. -/

namespace ViewRouting.Text

def Trimmed (cs : List Char) : Prop :=
  ∀ c, isBlank c → c ∉ cs.head? ∧ c ∉ cs.getLast?

theorem head?_dropWhile_blank {cs : List Char} {c : Char} (blank : isBlank c) :
    c ∉ (cs.dropWhile isBlank).head? := by
  intro h
  have stopped := List.head?_dropWhile_not isBlank cs
  rw [Option.mem_def.mp h] at stopped
  simp [blank] at stopped

theorem dropWhile_blank {cs : List Char} (h : ∀ c, isBlank c → c ∉ cs.head?) :
    cs.dropWhile isBlank = cs := by
  cases cs with
  | nil => rfl
  | cons c cs => rw [List.dropWhile_cons, if_neg fun blank => h c blank rfl]

theorem trim_trimmed (s : String) : Trimmed (trim s).toList := by
  have whole : (trim s).toList = (s.toList.dropWhile isBlank).rdropWhile isBlank :=
    String.toList_ofList
  intro c blank
  rw [whole]
  constructor
  · intro h
    obtain ⟨dropped, split⟩ := List.rdropWhile_prefix isBlank (s.toList.dropWhile isBlank)
    apply @head?_dropWhile_blank s.toList c blank
    rw [← split, List.head?_append, Option.mem_def.mp h]
    rfl
  · rw [List.rdropWhile, List.getLast?_reverse]
    exact head?_dropWhile_blank blank

theorem trim_eq_self_iff {s : String} : trim s = s ↔ Trimmed s.toList := by
  constructor
  · intro same
    rw [← same]
    exact trim_trimmed s
  · intro h
    have last : ∀ c, isBlank c → c ∉ s.toList.reverse.head? := by
      rw [List.head?_reverse]
      exact fun c blank => (h c blank).2
    rw [trim, dropWhile_blank fun c blank => (h c blank).1, dropWhile_blank last,
      List.reverse_reverse, String.ofList_toList]

theorem lower_trimmed {s : String} : Trimmed (lower s).toList ↔ Trimmed s.toList := by
  have mark {c : Char} (blank : isBlank c) : Naming.isMark c := by
    simp [Naming.isMark, Naming.isGap, blank]
  rw [lower, String.toList_ofList]
  apply forall₂_congr
  intro c blank
  rw [Naming.lowerFrom_head (mark blank), Naming.lowerFrom_last (mark blank)]

theorem lower_ne_empty {s : String} (full : s ≠ "") : lower s ≠ "" := by
  intro none
  have chars : lowerFrom false s.toList = [] := by
    simpa [lower] using congrArg String.toList none
  exact full (String.toList_eq_nil_iff.mp (Naming.lowerFrom_eq_nil.mp chars))

theorem trim_eq_empty {s : String} : trim s = "" ↔ ∀ c ∈ s.toList, isBlank c := by
  have dropped : trim s = "" ↔ ∀ c ∈ s.toList.dropWhile isBlank, isBlank c := by
    rw [← String.toList_eq_nil_iff, trim, String.toList_ofList]
    simp
  have all : (∀ c ∈ s.toList, isBlank c) ↔ s.toList.dropWhile isBlank = [] :=
    List.dropWhile_eq_nil_iff.symm
  rw [dropped, all]
  constructor
  · intro blank
    cases rest : s.toList.dropWhile isBlank with
    | nil => rfl
    | cons c cs =>
      have first := @head?_dropWhile_blank s.toList c (blank c (by simp [rest]))
      rw [rest] at first
      exact absurd rfl first
  · intro none
    simp [none]

theorem mem_split {separator c : Char} (other : c ≠ separator) {s : String} :
    c ∈ s.toList ↔ ∃ p ∈ split separator s, c ∈ p.toList := by
  have apart : c ∉ (String.singleton separator).toList := by simpa using other
  have same := count_join c apart (split separator s)
  rw [join_split] at same
  rw [← List.count_pos_iff, same, List.count_pos_iff, List.mem_flatMap]

end ViewRouting.Text

namespace ViewRouting.Trace

/-! Keys of names. -/

theorem keyOf_trimmed (name : String) : Text.Trimmed (keyOf name).toList :=
  Text.lower_trimmed.mpr (Text.trim_trimmed name)

theorem Enables.all {setting : Option String} (h : Enables setting "*") (key : String) :
    Enables setting key := by
  cases setting with
  | none => exact h
  | some s =>
    obtain ⟨given, all | ⟨entry, member, star⟩⟩ := h
    · exact ⟨given, .inl all⟩
    · exact ⟨given, .inr ⟨entry, member, .inr (star.elim id id)⟩⟩

theorem Enables.trimmed {setting : Option String} {key : String} (h : Enables setting key) :
    Text.Trimmed key.toList ∨ Enables setting "*" := by
  cases setting with
  | none => exact h.elim
  | some s =>
    obtain ⟨given, all | ⟨entry, member, own | star⟩⟩ := h
    · exact .inr ⟨given, .inl all⟩
    · exact .inl (own ▸ keyOf_trimmed entry)
    · exact .inr ⟨given, .inr ⟨entry, member, .inr star⟩⟩

theorem enables_lower_iff {setting : Option String} {name : String} :
    Enables setting (Text.lower name) ↔
      Enables setting (keyOf name) ∧ (Text.trim name = name ∨ Enables setting "*") := by
  constructor
  · intro h
    rcases h.trimmed with own | all
    · have trimmed : Text.trim name = name := Text.trim_eq_self_iff.mpr (Text.lower_trimmed.mp own)
      rw [keyOf, trimmed]
      exact ⟨h, .inl rfl⟩
    · exact ⟨all.all _, .inr all⟩
  · rintro ⟨h, trimmed | all⟩
    · rwa [keyOf, trimmed] at h
    · exact all.all _

/-! The setting that a desk stands by. -/

/-- The setting that was read last, once the commands have run: `read` was read last before them,
and `now` is set. -/
def readLast (read now : Option String) : List Command → Option String
  | [] => read
  | .assign s :: cs => readLast read s cs
  | .refresh :: cs => readLast now now cs
  | _ :: cs => readLast read now cs

theorem after_keys {d : Desk} {read : Option String} (keys : d.board.keys = keysOn read)
    (cs : List Command) :
    (d.after cs).board.keys = keysOn (readLast read d.board.setting cs) := by
  induction cs generalizing d read with
  | nil => exact keys
  | cons c cs ih =>
    have moved := Desk.run_moved d c
    rw [Desk.after_cons]
    cases c with
    | refresh => exact ih rfl
    | assign s => exact ih keys
    | configure | enabled | hold | send =>
      rw [ih ((moved.keys (by simp)).trans keys), moved.setting]
      rfl

theorem hears_named (b : Switchboard) {name : String} (full : name ≠ "") :
    b.hears (some name) = isOn b.keys name := by
  rw [Switchboard.hears]
  exact full

theorem hears_iff {b : Switchboard} {read : Option String} (keys : b.keys = keysOn read)
    {name : String} (full : name ≠ "") :
    b.hears (some name) = true ↔ Enables read (Text.lower name) := by
  rw [hears_named b full, keys, ← isOn_iff read (Text.lower_lower name), isOn, isOn,
    Text.lower_lower]

theorem named_heard {d : Desk} (kept : d.board.Kept) {read : Option String}
    (keys : d.board.keys = keysOn read) (name point : String) (data : Value) :
    (d.run (.send (.named name) point data)).1.output ≠ [] ↔
      (keyOf name ≠ "" ∧ Enables read (keyOf name)) ∧ ¬Unwritable d.board.style data := by
  have lower : Text.lower (keyOf name) = keyOf name := Text.lower_lower (Text.trim name)
  rw [Desk.send_answer, Desk.channel_keyed kept rfl, keys, keyed_answer lower, answer_output]

theorem named_output {d : Desk} (kept : d.board.Kept) {read : Option String}
    (keys : d.board.keys = keysOn read) {name : String} (full : Text.trim name ≠ "")
    (point : String) (data : Value) :
    (d.run (.send (.named name) point data)).1.output ≠ [] ↔
      Enables read (keyOf name) ∧ ¬Unwritable d.board.style data := by
  have key : keyOf name ≠ "" := Text.lower_ne_empty full
  rw [named_heard kept keys, and_iff_right key]

/-- At every point of every run, of a name that is not blank: a query changes nothing; a message
shows whether the setting that was read last enables the key of the name, if it can be written at
all; and the query tells the same of the key if the name has no blanks around it or all names are
on. If neither is the case, the query denies. -/
theorem query_agreement (setting : Option String) (style : Style) (clock : Instant)
    (told rest : List Command) {name : String} (full : Text.trim name ≠ "") (point : String)
    (data : Value) :
    let d : Desk := ⟨.fresh setting style clock, []⟩
    let read := readLast setting setting told
    d.after (told ++ [.enabled (some name)]) = d.after told ∧
      ∃ (on : Bool) (reply : Reply),
        (d.runAll (told ++ .enabled (some name) :: rest)).1[told.length]? =
          some ⟨.ok (some on), []⟩ ∧
        (d.runAll (told ++ .send (.named name) point data :: rest)).1[told.length]? = some reply ∧
        (reply.output ≠ [] ↔
          Enables read (keyOf name) ∧ ¬Unwritable (configured style told) data) ∧
        (on = true ↔ Enables read (keyOf name) ∧ (Text.trim name = name ∨ Enables read "*")) := by
  intro d read
  have moved := Desk.after_moved d told
  have kept : (d.after told).board.Kept := moved.kept (refresh_kept _)
  have keys : (d.after told).board.keys = keysOn read := after_keys rfl told
  have styled : (d.after told).board.style = configured style told := moved.style
  have unblank : name ≠ "" := by
    rintro rfl
    exact full (by decide)
  have shown := named_output kept keys full point data
  rw [styled] at shown
  refine ⟨?_, _, _, Desk.reply_at d told _ rest, Desk.reply_at d told _ rest, shown, ?_⟩
  · rw [Desk.after_append]
    rfl
  · rw [hears_iff keys unblank, enables_lower_iff]

theorem query_agreement_listed :
    let d : Desk := ⟨.fresh none {} .epoch, []⟩
    let told : List Command := [.assign (some "router, Live"), .refresh, .assign none]
    Text.trim "LIVE" ≠ "" ∧
      (d.runAll (told ++ [.enabled (some "LIVE")])).1[3]? = some ⟨.ok (some true), []⟩ ∧
      ∃ reply, (d.runAll (told ++ [.send (.named "LIVE") "p" .undefined])).1[3]? = some reply ∧
        reply.output ≠ [] := by
  intro d told
  have full : Text.trim "LIVE" ≠ "" := by decide
  have writable : ¬Unwritable (configured {} told) .undefined := fun h => nomatch h.1
  obtain ⟨-, on, reply, asked, sent, shown, said⟩ :=
    query_agreement none {} .epoch told [] full "p" .undefined
  have enabled : Enables (readLast none none told) (keyOf "LIVE") := by decide +kernel
  obtain rfl : on = true := said.mpr ⟨enabled, .inl (by decide)⟩
  exact ⟨full, asked, reply, sent, shown.mpr ⟨enabled, writable⟩⟩

/-- The channel of a name with blanks around it is heard, and the query denies it. -/
theorem query_untrimmed :
    let d : Desk := ⟨.fresh (some "live") {} .epoch, []⟩
    Text.trim " live " ≠ "" ∧
      (d.run (.enabled (some " live "))).1 = ⟨.ok (some false), []⟩ ∧
      (d.run (.send (.named " live ") "p" .undefined)).1.output = ["[live.p]"] := by
  intro d
  have denied : d.board.hears (some " live ") = false := by decide +kernel
  refine ⟨by decide, ?_, by decide +kernel⟩
  rw [Desk.run, denied]

/-! The flag: a query without a name. -/

/-- A setting that turns something on, as it seems. -/
def TurnsOn (setting : Option String) : Prop :=
  ∃ s, setting = some s ∧ s ∉ ["", "0", "false"]

/-- A setting without a name: there are only commas and blanks in it. -/
def Nameless (setting : Option String) : Prop :=
  ∃ s, setting = some s ∧ s ≠ "" ∧ ∀ c ∈ s.toList, c = ',' ∨ Text.isBlank c

theorem hears_none_iff {b : Switchboard} {read : Option String} (keys : b.keys = keysOn read) :
    b.hears none = true ↔ TurnsOn read := by
  rw [Switchboard.hears, keys]
  cases read with
  | none => simp [keysOn, TurnsOn]
  | some s =>
    have given : TurnsOn (some s) ↔ s ∉ ["", "0", "false"] := by simp [TurnsOn]
    rw [given, keysOn]
    by_cases off : s ∈ ["", "0", "false"]
    · simp only [List.contains_iff_mem, off]
      simp
    · by_cases all : s ∈ ["*", "1", "true"]
      · simp only [List.contains_iff_mem, off, all]
        simp
      · simp only [List.contains_iff_mem, off, all]
        simp [Text.split_ne_nil]

theorem Enables.turnsOn {setting : Option String} {key : String} (h : Enables setting key) :
    TurnsOn setting := by
  cases setting with
  | none => exact h.elim
  | some s => exact ⟨s, rfl, h.1⟩

theorem Nameless.words {setting : Option String} (nameless : Nameless setting) :
    ∃ s, setting = some s ∧ s ∉ ["", "0", "false"] ∧ s ∉ ["*", "1", "true"] ∧
      ∀ c ∈ s.toList, c = ',' ∨ Text.isBlank c := by
  obtain ⟨s, rfl, full, bare⟩ := nameless
  have every : s.toList.all fun c => c = ',' ∨ Text.isBlank c := by simpa using bare
  have words : ∀ word ∈ ["", "0", "false", "*", "1", "true"],
      word = "" ∨ (word.toList.all fun c => c = ',' ∨ Text.isBlank c) = false := by
    decide
  have other : s ∉ ["", "0", "false", "*", "1", "true"] := by
    intro member
    rcases words s member with none | named
    · exact full none
    · cases named.symm.trans every
  have apart : s ∉ ["", "0", "false"] ∧ s ∉ ["*", "1", "true"] := by
    rwa [← not_or, ← List.mem_append]
  exact ⟨s, rfl, apart.1, apart.2, bare⟩

theorem Nameless.turnsOn {setting : Option String} (nameless : Nameless setting) :
    TurnsOn setting := by
  obtain ⟨s, rfl, on, -⟩ := nameless.words
  exact ⟨s, rfl, on⟩

theorem Nameless.enables {setting : Option String} (nameless : Nameless setting) {key : String}
    (h : Enables setting key) : key = "" := by
  obtain ⟨s, rfl, -, listed, bare⟩ := nameless.words
  have blank : ∀ entry ∈ Text.split ',' s, keyOf entry = "" := by
    intro entry member
    have trimmed : Text.trim entry = "" := by
      rw [Text.trim_eq_empty]
      intro c hc
      have apart : c ≠ ',' := by
        rintro rfl
        exact Text.split_clean ',' s entry member hc
      exact (bare c ((Text.mem_split apart).mpr ⟨entry, member, hc⟩)).resolve_left apart
    rw [keyOf, trimmed]
    rfl
  obtain ⟨-, all | ⟨entry, member, own | star⟩⟩ := h
  · exact absurd all listed
  · rw [← own, blank entry member]
  · rw [blank entry member] at star
    exact absurd star (by decide)

theorem TurnsOn.enables {setting : Option String} (on : TurnsOn setting)
    (named : ¬Nameless setting) : ∃ name, keyOf name ≠ "" ∧ Enables setting (keyOf name) := by
  obtain ⟨s, rfl, given⟩ := on
  have full : s ≠ "" := by
    rintro rfl
    simp at given
  obtain ⟨c, hc, other⟩ : ∃ c ∈ s.toList, ¬(c = ',' ∨ Text.isBlank c) := by
    by_contra none
    exact named ⟨s, rfl, full, fun c hc => by_contra fun other => none ⟨c, hc, other⟩⟩
  rw [not_or] at other
  obtain ⟨entry, member, hc⟩ := (Text.mem_split other.1).mp hc
  refine ⟨entry, Text.lower_ne_empty fun blank => ?_, given, .inr ⟨entry, member, .inl rfl⟩⟩
  exact other.2 (Text.trim_eq_empty.mp blank c hc)

theorem some_heard {d : Desk} (kept : d.board.Kept) {read : Option String}
    (keys : d.board.keys = keysOn read) (point : String) (data : Value) :
    (∃ name, (d.run (.send (.named name) point data)).1.output ≠ []) ↔
      (TurnsOn read ∧ ¬Nameless read) ∧ ¬Unwritable d.board.style data := by
  simp only [named_heard kept keys, exists_and_right]
  apply and_congr_left'
  constructor
  · rintro ⟨name, full, on⟩
    exact ⟨on.turnsOn, fun nameless => full (nameless.enables on)⟩
  · rintro ⟨on, named⟩
    exact on.enables named

/-- At every point behind a refresh the flag is up if the setting that was read then turns something
on. There is a name with a channel that puts out a message, if it can be written at all, exactly if
the flag is up and the setting has a name: where there are only commas and blanks in it, the flag is
up and no channel is heard. -/
theorem flag_agreement (d : Desk) (early : List Command) {late : List Command}
    (last : .refresh ∉ late) (point : String) (data : Value) :
    let told := early ++ .refresh :: late
    let left := d.after told
    let read := assigned d.board.setting early
    ∃ on, (left.run (.enabled none)).1 = ⟨.ok (some on), []⟩ ∧ (on = true ↔ TurnsOn read) ∧
      ((∃ name, (left.run (.send (.named name) point data)).1.output ≠ []) ↔
        (on = true ∧ ¬Nameless read) ∧ ¬Unwritable (configured d.board.style told) data) ∧
      (Nameless read → on = true) := by
  intro told left read
  have moved := Desk.after_moved d told
  obtain ⟨kept, keys⟩ := Desk.after_refresh d early last
  have flag : left.board.hears none = true ↔ TurnsOn read := hears_none_iff keys
  refine ⟨_, rfl, flag, ?_, fun nameless => flag.mpr nameless.turnsOn⟩
  rw [some_heard kept keys, flag, moved.style]

theorem flag_agreement_listed :
    let d : Desk := ⟨.fresh none {} .epoch, []⟩
    .refresh ∉ [Command.assign none] ∧
      ((d.after ([.assign (some " , router,,")] ++ .refresh :: [.assign none])).run
        (.enabled none)).1 = ⟨.ok (some true), []⟩ ∧
      ∃ name, ((d.after ([.assign (some " , router,,")] ++ .refresh :: [.assign none])).run
        (.send (.named name) "p" .undefined)).1.output ≠ [] := by
  intro d
  have last : .refresh ∉ [Command.assign none] := by simp
  obtain ⟨on, asked, up, heard, -⟩ :=
    flag_agreement d [.assign (some " , router,,")] last "p" .undefined
  obtain rfl : on = true := up.mpr ⟨" , router,,", rfl, by decide⟩
  have named : ¬Nameless (some " , router,,") := by
    rintro ⟨_, same, -, bare⟩
    cases same
    exact absurd (bare 'r' (by decide)) (by decide)
  exact ⟨last, asked, heard.mpr ⟨⟨rfl, named⟩, fun h => nomatch h.1⟩⟩

/-- A comma raises the flag, and no channel is heard. -/
theorem flag_nameless :
    let d : Desk := ⟨.fresh (some ",") {} .epoch, []⟩
    (d.run (.enabled none)).1 = ⟨.ok (some true), []⟩ ∧
      ∀ name point data, (d.run (.send (.named name) point data)).1.output = [] := by
  intro d
  have comma : ∀ c ∈ [','], c = ',' ∨ Text.isBlank c := List.forall_mem_singleton.mpr (.inl rfl)
  have nameless : Nameless (some ",") := ⟨",", rfl, by decide, comma⟩
  have kept : d.board.Kept := refresh_kept _
  have up : d.board.hears none = true := (hears_none_iff rfl).mpr nameless.turnsOn
  refine ⟨by rw [Desk.run, up], fun name point data => ?_⟩
  by_contra heard
  exact ((some_heard kept rfl point data).mp ⟨name, heard⟩).1.2 nameless

end ViewRouting.Trace
