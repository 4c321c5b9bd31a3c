import ViewRouting.Fault

/-! Readable text of message data. Fields are written as `name=value`; what lies deeper is cut
short: long texts after fifty-seven units, arrays that have more than three items or take more than
fifty units, and objects inside objects. -/

namespace ViewRouting.Trace

def shorten (s : String) : String :=
  if 60 < Text.width s then "\"" ++ (Text.cut 57 s).text ++ "...\"" else "\"" ++ s ++ "\""

def inlineParts (parts : List String) : String :=
  "\x7b " ++ ", ".intercalate parts ++ " \x7d"

def nestedParts (parts : List String) : String :=
  if parts.isEmpty then "\x7b\x7d" else inlineParts parts

/-- Items on one line if they are few and short, else their number. -/
def arrayText (depth : Nat) (items : List String) : String :=
  let inline := "[" ++ ", ".intercalate items ++ "]"
  if items.isEmpty then "[]"
  else if items.length ≤ 3 ∧ depth < 2 ∧ Text.width inline ≤ 50 then inline
  else "[" ++ toString items.length ++ " items]"

mutual
def prettyValue (depth : Nat) : Value → String
  | .undefined => "undefined"
  | .null => "null"
  | .bool b => if b then "true" else "false"
  | .number n => n.text
  | .string s => shorten s
  | .bigint _ => "[unserializable]"
  | .symbol description => "Symbol(" ++ description ++ ")"
  | .date _ => if depth < 1 then nestedParts [] else "\x7b...\x7d"
  | .array items => arrayText depth (prettyItems (depth + 1) items)
  | .object _ fields =>
    if depth < 1 then nestedParts (prettyFields (depth + 1) fields) else "\x7b...\x7d"

def prettyItems (depth : Nat) : List Value → List String
  | [] => []
  | v :: vs => prettyValue depth v :: prettyItems depth vs

def prettyFields (depth : Nat) : List (String × Value) → List String
  | [] => []
  | (name, v) :: rest => (name ++ "=" ++ prettyValue depth v) :: prettyFields depth rest
end

/-- The fields of a message, one to a line if they take more than a hundred units. -/
def prettyRecord (fields : Record Value) : String :=
  let parts := prettyFields 0 fields
  if Text.width (inlineParts parts) ≤ 100 then nestedParts parts
  else "\x7b\n  " ++ ",\n  ".intercalate parts ++ "\n\x7d"

/-! Messages of the trace: a channel, a point, data if there are any, and the time if it is wanted,
in a readable form or as one JSON object. -/

inductive Format where
  | pretty
  | json
  deriving DecidableEq, Repr

structure Style where
  format : Format := .pretty
  timestamps : Bool := false
  deriving DecidableEq, Repr

structure Message where
  channel : String
  point : String
  data : Value

namespace Message

def toRecord (m : Message) (time? : Option Instant) : Record Value :=
  [("channel", .string m.channel), ("point", .string m.point)]
    ++ (if m.data.isTruthy then [("data", m.data)] else [])
    ++ (match time? with
      | some t => [("timestamp", .number (.ofInt t.milliseconds))]
      | none => [])

def pretty (m : Message) (time? : Option Instant) : String :=
  let stamp := match time? with
    | some t => "[" ++ t.text ++ "] "
    | none => ""
  let label := "[" ++ m.channel ++ "." ++ m.point ++ "]"
  let fields := m.data.ownFields
  if m.data.isTruthy && !fields.isEmpty then stamp ++ label ++ " " ++ prettyRecord fields
  else stamp ++ label

def text (m : Message) (style : Style) (now : Instant) : Except Fault String :=
  let time? := if style.timestamps then some now else none
  match style.format with
  | .pretty => .ok (m.pretty time?)
  | .json => (Value.record (m.toRecord time?)).display

end Message

end ViewRouting.Trace
