import ViewRouting.Proofs.Decimals
import ViewRouting.Proofs.Messages

/-! Summaries of values. In the readable text of a message a value takes at most sixty-two units,
however large it is and however deep its parts lie, because arrays, long texts and objects inside
objects are cut short. An object that is a field of the message itself is the exception. It is
written field by field, each of them within the same bound, and stays on one line, unlike the fields
of the message. Symbols have no bound, since their descriptions are written in full. -/

namespace ViewRouting.Value

/-- No symbol stands in the value, and its arrays have fewer than `2 ^ 32` items. -/
structure Tame (v : Value) : Prop where
  symbolFree : ∀ description, ¬Occurs (.symbol description) v
  countable : ∀ items, Occurs (.array items) v → items.length < 2 ^ 32

theorem Tame.inside {v w : Value} (tame : w.Tame) (occurs : Occurs v w) : v.Tame where
  symbolFree description inner := tame.symbolFree description (inner.trans occurs)
  countable items inner := tame.countable items (inner.trans occurs)

theorem Tame.ofItems {items : List Value} (countable : items.length < 2 ^ 32)
    (tame : ∀ v ∈ items, v.Tame) : (Value.array items).Tame where
  symbolFree description occurs := by
    cases occurs with
    | item member inner => exact (tame _ member).symbolFree description inner
  countable inside occurs := by
    cases occurs with
    | here => exact countable
    | item member inner => exact (tame _ member).countable inside inner

theorem Tame.ofFields {kind : ObjectKind} {fields : Record Value}
    (tame : ∀ f ∈ fields, f.2.Tame) : (Value.object kind fields).Tame where
  symbolFree description occurs := by
    cases occurs with
    | field member inner => exact (tame _ member).symbolFree description inner
  countable items occurs := by
    cases occurs with
    | field member inner => exact (tame _ member).countable items inner

/-- Objects, dates among them; arrays are none. -/
def isObject : Value → Bool
  | .object _ _ | .date _ => true
  | _ => false

end ViewRouting.Value

namespace ViewRouting.Trace

theorem width_shorten (s : String) : Text.width (shorten s) ≤ 62 := by
  have quote : Text.width "\"" = 1 := by decide
  rw [shorten]
  split
  · have cut := Text.width_cut 57 s
    have dots : Text.width "...\"" = 4 := by decide
    rw [Text.width_append, Text.width_append, quote, dots]
    omega
  · rw [Text.width_append, Text.width_append, quote]
    omega

theorem width_count {n : Nat} (countable : n < 2 ^ 32) : Text.width (toString n) ≤ 10 := by
  rw [Nat.toString_eq_ofList_toDigits, Text.width_plain (Decimal.toDigits_plain n)]
  exact Nat.toDigits_length 10 n 10 (by omega) (by omega)

theorem width_arrayText (depth : Nat) {items : List String} (countable : items.length < 2 ^ 32) :
    Text.width (arrayText depth items) ≤ 50 := by
  have count := width_count countable
  rw [arrayText]
  split
  case isTrue none => decide
  case isFalse some =>
    split
    case isTrue short => exact short.2.2
    case isFalse long =>
      have left : Text.width "[" = 1 := by decide
      have right : Text.width " items]" = 7 := by decide
      rw [Text.width_append, Text.width_append, left, right]
      omega

theorem length_prettyItems (depth : Nat) (items : List Value) :
    (prettyItems depth items).length = items.length := by
  induction items with
  | nil => rw [prettyItems, List.length_nil, List.length_nil]
  | cons v items ih => rw [prettyItems, List.length_cons, List.length_cons, ih]

theorem width_prettyValue {v : Value} (tame : v.Tame) {depth : Nat}
    (closed : 1 ≤ depth ∨ v.isObject = false) : Text.width (prettyValue depth v) ≤ 62 := by
  -- No induction is needed: an array that is written out is measured as it stands, and an object
  -- that might be long is not opened.
  cases v with
  | undefined | null | bigint =>
    rw [prettyValue]
    decide
  | bool b =>
    rw [prettyValue]
    cases b <;> decide
  | number n =>
    rw [prettyValue]
    exact n.width_text.trans (by omega)
  | string s =>
    rw [prettyValue]
    exact width_shorten s
  | symbol description => exact absurd .here (tame.symbolFree description)
  | date time =>
    rw [prettyValue]
    split <;> decide
  | array items =>
    have countable : (prettyItems (depth + 1) items).length < 2 ^ 32 := by
      rw [length_prettyItems]
      exact tame.countable items .here
    rw [prettyValue]
    exact (width_arrayText depth countable).trans (by omega)
  | object kind fields =>
    have deep : ¬depth < 1 := by
      rcases closed with deep | other
      · omega
      · cases other
    rw [prettyValue, if_neg deep]
    decide

def fieldText (f : String × Value) : String :=
  f.1 ++ "=" ++ prettyValue 1 f.2

theorem prettyFields_eq (fields : Record Value) : prettyFields 1 fields = fields.map fieldText := by
  induction fields with
  | nil => rw [prettyFields, List.map_nil]
  | cons f fields ih =>
    obtain ⟨name, v⟩ := f
    rw [prettyFields, ih, List.map_cons, fieldText]

/-- The text of an object on one line: its fields in order, between braces and parted by commas.
What is shown of a field is bounded, and all line breaks are those of the fields. -/
structure OneLine (fields : Record Value) (text : String) : Prop where
  short : ∀ f ∈ fields, Text.width (prettyValue 1 f.2) ≤ 62
  whole : text = if fields.isEmpty then "\x7b\x7d"
    else "\x7b " ++ Text.join ", " (fields.map fieldText) ++ " \x7d"
  unbroken : text.toList.count '\n' = (fields.flatMap fun f => (fieldText f).toList).count '\n'

theorem nestedParts_oneLine {fields : Record Value}
    (short : ∀ f ∈ fields, Text.width (prettyValue 1 f.2) ≤ 62) :
    OneLine fields (nestedParts (fields.map fieldText)) := by
  have whole : nestedParts (fields.map fieldText) = if fields.isEmpty then "\x7b\x7d"
      else "\x7b " ++ Text.join ", " (fields.map fieldText) ++ " \x7d" := by
    rw [nestedParts, List.isEmpty_map]
    rfl
  refine ⟨short, whole, ?_⟩
  rw [whole]
  split
  case isTrue none =>
    rw [List.isEmpty_iff.mp none]
    rfl
  case isFalse some =>
    have comma : '\n' ∉ ", ".toList := by decide
    have joined := Text.count_join '\n' comma (fields.map fieldText)
    have left : "\x7b ".toList.count '\n' = 0 := by decide
    have right : " \x7d".toList.count '\n' = 0 := by decide
    rw [String.toList_append, String.toList_append, List.count_append, List.count_append, left,
      right, joined, List.flatMap_map]
    omega

/-- A value inside a field of a message takes at most sixty-two units, and so does a field itself
that is no object. An object there is written on one line, whatever its length. -/
theorem pretty_bounded {v : Value} (tame : v.Tame) (depth : Nat) :
    (1 ≤ depth ∨ v.isObject = false → Text.width (prettyValue depth v) ≤ 62) ∧
      (v.isObject → OneLine v.ownFields (prettyValue 0 v)) := by
  refine ⟨width_prettyValue tame, fun object => ?_⟩
  cases v with
  | undefined | null | bool | number | string | bigint | symbol | array => cases object
  | date time =>
    rw [prettyValue, if_pos (by omega)]
    exact nestedParts_oneLine (by simp [Value.ownFields])
  | object kind fields =>
    rw [prettyValue, if_pos (by omega), prettyFields_eq]
    apply nestedParts_oneLine
    intro f member
    exact width_prettyValue (tame.inside (.field member .here)) (.inl (by omega))

theorem pretty_bounded_long :
    let xs (n : Nat) := String.ofList (List.replicate n 'x')
    let fields : Record Value := [("text", .string (xs 61)),
      ("items", .array [.string "ClockLive", .ofNat 2]), ("deep", .record [("n", .bigint 12)])]
    let v : Value := .record fields
    v.Tame ∧ v.isObject = true ∧ Text.width (prettyValue 1 v) ≤ 62 ∧
      OneLine v.ownFields (prettyValue 0 v) ∧
      prettyValue 0 v = "\x7b text=\"" ++ xs 57 ++
        "...\", items=[\"ClockLive\", 2], deep=\x7b...\x7d \x7d" ∧
      prettyRecord fields = "\x7b\n  text=\"" ++ xs 57 ++
        "...\",\n  items=[\"ClockLive\", 2],\n  deep=\x7b n=[unserializable] \x7d\n\x7d" := by
  -- A text that is cut short, an array and an object inside an object. Together they take more than
  -- a hundred units, for which the fields of a message are written a line each.
  intro xs fields v
  have text (s : String) : (Value.string s).Tame := ⟨nofun, nofun⟩
  have number (n : Binary64) : (Value.number n).Tame := ⟨nofun, nofun⟩
  have big (n : Int) : (Value.bigint n).Tame := ⟨nofun, nofun⟩
  have items : (Value.array [.string "ClockLive", .ofNat 2]).Tame :=
    .ofItems (by decide) (by simp [Value.ofNat, text, number])
  have deep : (Value.record [("n", .bigint 12)]).Tame := .ofFields (by simp [big])
  have tame : v.Tame := .ofFields (by simp [fields, text, items, deep])
  obtain ⟨short, line⟩ := pretty_bounded tame 1
  exact ⟨tame, rfl, short (.inl le_rfl), line rfl, by decide +kernel, by decide +kernel⟩

end ViewRouting.Trace
