import ViewRouting.Value

/-! What values are read as where a text, a number or JSON is wanted. -/

/-! Texts of values: what a value reads as where a text is expected. A symbol has no text; a bare
object has none, nor has an ordinary one with a field `toString`, which takes the place of what
would give its text; and an array has none that holds one of these. -/

namespace ViewRouting.Value

mutual
/-- The texts of the items of an array are joined by commas. -/
def text? : Value → Option String
  | .undefined => some "undefined"
  | .null => some "null"
  | .bool b => some (if b then "true" else "false")
  | .number n => some n.text
  | .string s => some s
  | .bigint n => some (toString n)
  | .date none => some "Invalid Date"
  | .date (some t) => some t.longText
  | .array items => (itemTexts? items).map ",".intercalate
  | .object .ordinary fields =>
    if (Record.get? fields "toString").isSome then none else some "[object Object]"
  | .symbol _ | .object .bare _ => none

/-- Undefined and null leave their place between the commas blank. -/
def itemTexts? : List Value → Option (List String)
  | [] => some []
  | v :: vs =>
    match if v.isNullish then some "" else v.text?, itemTexts? vs with
    | some text, some texts => some (text :: texts)
    | _, _ => none
end

def text (v : Value) : String :=
  v.text?.getD ""

/-! Numbers of values: what a value reads as where a number is expected. Most values read as the
number that their text spells. A big integer is none, because it does not mix with numbers, and a
value without a text is none. -/

def number? : Value → Option Binary64
  | .undefined => some .nan
  | .null => some .zero
  | .bool b => some (if b then .ofNat 1 else .zero)
  | .number n => some n
  | .date none => some .nan
  | .date (some t) => some (.ofInt t.milliseconds)
  | .bigint _ => none
  | v => v.text?.map .ofText

/-! JSON text of values. Undefined values and symbols have none: an array writes null in their place
and an object leaves their field out. A big integer can stand nowhere in it. -/

mutual
/-- The JSON text of a value that holds no big integer. -/
def jsonText? : Value → Option String
  | .undefined | .symbol _ | .bigint _ => none
  | .null => some "null"
  | .bool b => some (if b then "true" else "false")
  | .number n => some (if n.isFinite then n.text else "null")
  | .string s => some (Text.quoted s)
  | .date none => some "null"
  | .date (some t) => some (Text.quoted t.text)
  | .array items => some ("[" ++ ",".intercalate (jsonItems items) ++ "]")
  | .object _ fields => some ("\x7b" ++ ",".intercalate (jsonFields fields) ++ "\x7d")

def jsonItems : List Value → List String
  | [] => []
  | v :: vs => v.jsonText?.getD "null" :: jsonItems vs

def jsonFields : List (String × Value) → List String
  | [] => []
  | (name, v) :: rest =>
    match v.jsonText? with
    | some text => (Text.quoted name ++ ":" ++ text) :: jsonFields rest
    | none => jsonFields rest
end

def shown (v : Value) : String :=
  v.jsonText?.getD "undefined"

end ViewRouting.Value
