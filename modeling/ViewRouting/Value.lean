import ViewRouting.Instant
import ViewRouting.Number.Decimal
import ViewRouting.Record
import ViewRouting.Text

/-! Values of untyped callers: what may stand in an options bag, in the data of a route and in a
message of the trace. -/

namespace ViewRouting

/-- An ordinary object, or a bare one that inherits nothing. -/
inductive ObjectKind where
  | ordinary
  | bare
  deriving DecidableEq, Repr

/-- Values that are data. Functions, instances of classes other than dates, values that hold
themselves, arrays with holes and fields under symbols are left out, and so is text with half a
character in it. -/
inductive Value where
  | undefined
  | null
  | bool (b : Bool)
  | number (n : Binary64)
  | string (s : String)
  | bigint (n : Int)
  | symbol (description : String)
  /-- A date without a time is an invalid one. -/
  | date (time : Option Instant)
  | array (items : List Value)
  | object (kind : ObjectKind) (fields : List (String × Value))

namespace Value

def record (fields : Record Value) : Value :=
  .object .ordinary fields

def ofNat (n : Nat) : Value :=
  .number (Binary64.ofNat n)

def isNullish : Value → Bool
  | .undefined | .null => true
  | _ => false

/-- Undefined, null, false, zero, not-a-number and the empty text count as absent. -/
def isTruthy : Value → Bool
  | .undefined | .null => false
  | .bool b => b
  | .number n => !(n.isNaN || n.isZero)
  | .string s => s != ""
  | .bigint n => n != 0
  | _ => true

/-- The value, unless it counts as absent. -/
def truthy? (v : Value) : Option Value :=
  if v.isTruthy then some v else none

def given? (v : Value) : Option Value :=
  if v.isNullish then none else some v

/-- `default` where the value is undefined or null. -/
def orElse (v default : Value) : Value :=
  v.given?.getD default

def asString? : Value → Option String
  | .string s => some s
  | _ => none

/-- The fields of a plain object; arrays and dates are none. -/
def plainFields? : Value → Option (Record Value)
  | .object _ fields => some fields
  | _ => none

/-- The units of a text, each a text of its own; half a character stands replaced. -/
def unitsOf (s : String) : List Value :=
  s.toList.flatMap fun c =>
    if c.toNat < 0x10000 then [.string (String.singleton c)]
    else [.string Text.replacement, .string Text.replacement]

def indexed (items : List Value) : Record Value :=
  items.zipIdx.map fun item => (toString item.2, item.1)

/-- The fields that a value has of its own: those of an object, and the items of an array or the
units of a text under their indices. -/
def ownFields : Value → Record Value
  | .object _ fields => fields
  | .array items => indexed items
  | .string s => indexed (unitsOf s)
  | _ => []

def field (r : Record Value) (name : String) : Value :=
  (r.get? name).getD .undefined

/-- The item at a place, counted from zero; undefined if nothing stands there. -/
def item (v : Value) (place : Nat) : Value :=
  match v with
  | .array items => items[place]?.getD .undefined
  | v => field v.ownFields (toString place)

/-- The length that a value has, or says it has in a field of its own. -/
def length : Value → Value
  | .string s => .ofNat (Text.width s)
  | .array items => .ofNat items.length
  | .object _ fields => field fields "length"
  | _ => .undefined

def defined? : Value → Option Value
  | .undefined => none
  | v => some v

/-- The field of that name, if there is one that is not undefined. -/
def present? (r : Record Value) (name : String) : Option Value :=
  (field r name).defined?

mutual
def holdsBigint : Value → Bool
  | .bigint _ => true
  | .array items => anyHoldsBigint items
  | .object _ fields => anyFieldHoldsBigint fields
  | _ => false

def anyHoldsBigint : List Value → Bool
  | [] => false
  | v :: vs => v.holdsBigint || anyHoldsBigint vs

def anyFieldHoldsBigint : List (String × Value) → Bool
  | [] => false
  | (_, v) :: rest => v.holdsBigint || anyFieldHoldsBigint rest
end

end Value

end ViewRouting
