import ViewRouting.Proofs.Checks
import ViewRouting.Trace.Journal

/-! Notes in the journal. An event can be written in every style unless a big integer stands in its
data, and then noting it changes nothing but the journal. Whether events can be written is up to the
board of the journal, which no note changes. -/

namespace ViewRouting.Trace

def Event.Plain (e : Event) : Prop :=
  Value.anyFieldHoldsBigint e.data = false

theorem anyField_append (r s : Record Value) :
    Value.anyFieldHoldsBigint (r ++ s) =
      (Value.anyFieldHoldsBigint r || Value.anyFieldHoldsBigint s) := by
  induction r with
  | nil => rfl
  | cons f r ih =>
    obtain ⟨name, v⟩ := f
    simp only [List.cons_append, Value.anyFieldHoldsBigint, ih, Bool.or_assoc]

theorem toRecord_holdsBigint (m : Message) (time? : Option Instant) :
    (Value.record (m.toRecord time?)).holdsBigint = (m.data.isTruthy && m.data.holdsBigint) := by
  rw [Value.record, Value.holdsBigint]
  unfold Message.toRecord
  rw [anyField_append, anyField_append]
  cases time? <;> cases m.data.isTruthy <;>
    simp [Value.anyFieldHoldsBigint, Value.holdsBigint]

theorem text_ok {m : Message} (plain : (m.data.isTruthy && m.data.holdsBigint) = false)
    (style : Style) (now : Instant) : ∃ s, m.text style now = .ok s := by
  obtain ⟨format, timestamps⟩ := style
  cases format with
  | pretty => exact ⟨_, rfl⟩
  | json =>
    simp only [Message.text, Value.display, toRecord_holdsBigint, plain]
    exact ⟨_, rfl⟩

theorem note_ok {e : Event} (plain : e.Plain) (j : Journal) : ∃ j', j.note e = .ok j' := by
  have sent : ∃ text,
      j.board.send (j.board.builtin e.topic) e.point (.record e.data) = .ok text := by
    rw [Switchboard.send, Channel.send]
    split
    · have small : (Value.record e.data).holdsBigint = false := by
        rwa [Value.record, Value.holdsBigint]
      obtain ⟨s, hs⟩ := text_ok (m := ⟨(j.board.builtin e.topic).key, e.point, .record e.data⟩)
        (by rw [small, Bool.and_false]) j.board.style j.board.clock
      exact ⟨some s, by rw [hs]; rfl⟩
    · exact ⟨none, rfl⟩
  obtain ⟨text, ht⟩ := sent
  rw [Journal.note, ht]
  cases text <;> exact ⟨_, rfl⟩

theorem noteAll_ok {events : List Event} (plain : ∀ e ∈ events, e.Plain) (j : Journal) :
    ∃ j', j.noteAll events = (.ok (), j') := by
  induction events generalizing j with
  | nil => exact ⟨j, rfl⟩
  | cons e events ih =>
    obtain ⟨next, hn⟩ := note_ok (plain e (by simp)) j
    obtain ⟨last, hl⟩ := ih (fun e he => plain e (by simp [he])) next
    exact ⟨last, by rw [Journal.noteAll, hn]; exact hl⟩

theorem noteAll_append {events : List Event} {j next : Journal}
    (first : j.noteAll events = (.ok (), next)) (more : List Event) :
    j.noteAll (events ++ more) = next.noteAll more := by
  induction events generalizing j with
  | nil =>
    cases first
    rfl
  | cons e events ih =>
    rw [Journal.noteAll] at first
    rw [List.cons_append, Journal.noteAll]
    cases hn : j.note e with
    | ok noted =>
      rw [hn] at first
      exact ih first
    | error fault =>
      rw [hn] at first
      cases first

theorem scopeEntered_plain (path : String) (qualifier : Option String) {stem : Value}
    (plain : stem.holdsBigint = false) : (Event.scopeEntered path qualifier stem).Plain := by
  cases qualifier <;> simp [Event.Plain, Event.data, Value.anyFieldHoldsBigint, Value.holdsBigint,
    plain]

theorem tableBuilt_plain (router : String) (routes : Nat) : (Event.tableBuilt router routes).Plain :=
  rfl

theorem note_eq (j : Journal) (e : Event) :
    j.note e =
      (j.board.send (j.board.builtin e.topic) e.point (.record e.data)).map fun text? =>
        { j with lines := j.lines ++ (text?.map (Line.mk e)).toList } := by
  rw [Journal.note]
  rcases j.board.send (j.board.builtin e.topic) e.point (.record e.data) with
    fault | (_ | text)
  · rfl
  · simp [bind, Except.bind, Except.map, pure, Except.pure]
  · rfl

theorem noteAll_board (j : Journal) (events : List Event) :
    (j.noteAll events).2.board = j.board := by
  induction events generalizing j with
  | nil => rfl
  | cons e events ih =>
    rw [Journal.noteAll, note_eq]
    cases j.board.send (j.board.builtin e.topic) e.point (.record e.data) with
    | error fault => rfl
    | ok text? => exact ih _

theorem noteAll_same {j j' : Journal} (same : j'.board = j.board) (events : List Event) :
    (j'.noteAll events).1 = (j.noteAll events).1 := by
  induction events generalizing j j' with
  | nil => rfl
  | cons e events ih =>
    rw [Journal.noteAll, Journal.noteAll, note_eq, note_eq, same]
    cases j.board.send (j.board.builtin e.topic) e.point (.record e.data) with
    | error fault => rfl
    | ok text? => exact ih rfl

end ViewRouting.Trace
