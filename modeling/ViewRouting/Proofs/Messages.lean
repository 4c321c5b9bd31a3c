import ViewRouting.Proofs.Channels
import ViewRouting.Proofs.Notes

/-! What becomes of a message. A channel that is heard puts out one text, in either format and with
or without the time, and one that is not heard puts out nothing. What cannot be written is a big
integer in the JSON format: it may stand anywhere in the data, and then the fault of writing it
reaches the one who sent the message. The readable format has a text of its own for it. -/

namespace ViewRouting.Value

/-- A value stands somewhere in another one. -/
inductive Occurs (x : Value) : Value → Prop
  | here : Occurs x x
  | item {items : List Value} {v : Value} (member : v ∈ items) (inside : Occurs x v) :
      Occurs x (.array items)
  | field {kind : ObjectKind} {fields : Record Value} {name : String} {v : Value}
      (member : (name, v) ∈ fields) (inside : Occurs x v) : Occurs x (.object kind fields)

theorem Occurs.trans {x v w : Value} (inner : Occurs x v) (outer : Occurs v w) : Occurs x w := by
  induction outer with
  | here => exact inner
  | item member _ ih => exact .item member ih
  | field member _ ih => exact .field member ih

theorem anyHoldsBigint_iff {items : List Value} :
    anyHoldsBigint items ↔ ∃ v ∈ items, v.holdsBigint := by
  induction items with
  | nil => simp [anyHoldsBigint]
  | cons v items ih => simp [anyHoldsBigint, ih]

theorem anyFieldHoldsBigint_iff {fields : Record Value} :
    anyFieldHoldsBigint fields ↔ ∃ name v, (name, v) ∈ fields ∧ v.holdsBigint := by
  induction fields with
  | nil => simp [anyFieldHoldsBigint]
  | cons f fields ih =>
    obtain ⟨name, v⟩ := f
    rw [anyFieldHoldsBigint, Bool.or_eq_true, ih]
    constructor
    · rintro (h | ⟨other, w, hw, h⟩)
      · exact ⟨name, v, .head _, h⟩
      · exact ⟨other, w, .tail _ hw, h⟩
    · rintro ⟨other, w, hw, h⟩
      rcases List.mem_cons.mp hw with same | hw
      · cases same
        exact .inl h
      · exact .inr ⟨other, w, hw, h⟩

theorem occurs_of_holdsBigint : ∀ {v : Value}, v.holdsBigint → ∃ n, Occurs (.bigint n) v
  | .bigint n, _ => ⟨n, .here⟩
  | .array items, h => by
    obtain ⟨v, member, inside⟩ := anyHoldsBigint_iff.mp (by simpa only [holdsBigint] using h)
    obtain ⟨n, occurs⟩ := occurs_of_holdsBigint inside
    exact ⟨n, .item member occurs⟩
  | .object kind fields, h => by
    obtain ⟨name, v, member, inside⟩ :=
      anyFieldHoldsBigint_iff.mp (by simpa only [holdsBigint] using h)
    obtain ⟨n, occurs⟩ := occurs_of_holdsBigint inside
    exact ⟨n, .field member occurs⟩
termination_by v => v
decreasing_by
  · have := List.sizeOf_lt_of_mem member
    simp only [array.sizeOf_spec]
    omega
  · have := List.sizeOf_lt_of_mem member
    simp only [object.sizeOf_spec, Prod.mk.sizeOf_spec] at this ⊢
    omega

theorem holdsBigint_iff {v : Value} : v.holdsBigint ↔ ∃ n, Occurs (.bigint n) v := by
  refine ⟨occurs_of_holdsBigint, ?_⟩
  rintro ⟨n, occurs⟩
  induction occurs with
  | here => rw [holdsBigint]
  | item member _ ih =>
    rw [holdsBigint]
    exact anyHoldsBigint_iff.mpr ⟨_, member, ih⟩
  | field member _ ih =>
    rw [holdsBigint]
    exact anyFieldHoldsBigint_iff.mpr ⟨_, _, member, ih⟩

end ViewRouting.Value

namespace ViewRouting.Trace

def Unwritable (style : Style) (data : Value) : Prop :=
  style.format = .json ∧ data.isTruthy ∧ ∃ n, Value.Occurs (.bigint n) data

theorem text_unwritable {m : Message} {style : Style} (h : Unwritable style m.data)
    (now : Instant) : m.text style now = .error .unserializable := by
  obtain ⟨json, truthy, big⟩ := h
  simp only [Message.text, json, Value.display, toRecord_holdsBigint, truthy,
    Value.holdsBigint_iff.mpr big, Bool.and_self, if_true]

theorem text_written {m : Message} {style : Style} (h : ¬Unwritable style m.data)
    (now : Instant) : ∃ s, m.text style now = .ok s := by
  obtain ⟨format, timestamps⟩ := style
  cases format with
  | pretty => exact ⟨_, rfl⟩
  | json =>
    apply text_ok
    rw [Bool.eq_false_iff, ne_eq, Bool.and_eq_true, Value.holdsBigint_iff]
    exact fun ⟨truthy, big⟩ => h ⟨rfl, truthy, big⟩

theorem answer_unheard {heard : Prop} [Decidable heard] (h : ¬heard) (m : Message) (style : Style)
    (now : Instant) : answer heard m style now = ⟨.ok none, []⟩ :=
  if_neg h

theorem answer_unwritable {heard : Prop} [Decidable heard] (h : heard) {m : Message} {style : Style}
    (unwritable : Unwritable style m.data) (now : Instant) :
    answer heard m style now = ⟨.error .unserializable, []⟩ := by
  simp only [answer, h, if_true, text_unwritable unwritable]

theorem answer_written {heard : Prop} [Decidable heard] (h : heard) {m : Message} {style : Style}
    (writable : ¬Unwritable style m.data) (now : Instant) :
    ∃ text, answer heard m style now = ⟨.ok none, [text]⟩ := by
  obtain ⟨text, written⟩ := text_written writable now
  exact ⟨text, by simp only [answer, h, if_true, written]⟩

theorem answer_output {heard : Prop} [Decidable heard] {m : Message} {style : Style}
    {now : Instant} :
    (answer heard m style now).output ≠ [] ↔ heard ∧ ¬Unwritable style m.data := by
  by_cases h : heard
  · by_cases unwritable : Unwritable style m.data
    · rw [answer_unwritable h unwritable]
      simp [unwritable]
    · obtain ⟨text, written⟩ := answer_written h unwritable now
      rw [written]
      simp [h, unwritable]
  · rw [answer_unheard h]
    simp [h]

/-- Wherever a message is sent in a run, to whatever channel, in whatever style is configured, and
whatever its data are: nothing comes of it if the channel is not heard, one text if it is, and the
fault of writing it if it is heard and cannot be written. Whatever comes of it, the desk is left as
the look-up of the channel leaves it. -/
theorem message_outcomes (d : Desk) (told rest : List Command) (source : Source) (point : String)
    (data : Value) :
    let sent := Command.send source point data
    let channel := ((d.after told).channel source).1
    let style := configured d.board.style told
    d.after (told ++ [sent]) = ((d.after told).channel source).2 ∧
      ∃ reply, (d.runAll (told ++ sent :: rest)).1[told.length]? = some reply ∧
        (reply = ⟨.ok none, []⟩ ↔ channel.active = false) ∧
        ((∃ text, reply = ⟨.ok none, [text]⟩) ↔ channel.active = true ∧ ¬Unwritable style data) ∧
        (reply = ⟨.error .unserializable, []⟩ ↔ channel.active = true ∧ Unwritable style data) := by
  intro sent channel style
  have moved := Desk.after_moved d told
  refine ⟨?_, _, Desk.reply_at d told sent rest, ?_⟩
  · rw [Desk.after_append, Desk.after_cons]
    exact Desk.send_left (d.after told) source point data
  · rw [Desk.send_answer, moved.style]
    by_cases heard : channel.active = true
    · by_cases unwritable : Unwritable style data
      · rw [answer_unwritable heard unwritable]
        simp [heard, unwritable]
      · obtain ⟨text, written⟩ := answer_written heard (m := ⟨channel.key, point, data⟩) unwritable
          (d.after told).board.clock
        rw [written]
        simp [heard, unwritable]
    · rw [answer_unheard heard]
      simp [heard]

/-- A channel that is heard raises a fault on a big integer in JSON. The readable text of the same
message has a word for it. -/
theorem bigint_unlogged :
    let d : Desk := ⟨.fresh none {} .epoch, []⟩
    let told (format : Format) : List Command :=
      [.assign (some "live"), .refresh, .configure (some format) none]
    let sent : Command := .send (.builtin .live) "p" (.record [("n", .bigint 12)])
    let reply (format : Format) := (d.runAll (told format ++ [sent])).1[3]?
    ((d.after (told .json)).channel (.builtin .live)).1.active = true ∧
      reply .json = some ⟨.error .unserializable, []⟩ ∧
      (reply .pretty).map Reply.output = some ["[live.p] \x7b n=[unserializable] \x7d"] := by
  intro d told sent reply
  refine ⟨by decide +kernel, rfl, ?_⟩
  simp only [reply, told, sent, d]
  decide +kernel

end ViewRouting.Trace
