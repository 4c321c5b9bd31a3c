/-! Records: fields under distinct names, in an order that their names and the history of insertion
fix. Names that spell an index come first, in ascending order; the others follow in the order in
which they were first inserted. Inserting under a name that is present replaces the field in its
place. -/

namespace ViewRouting

abbrev Record (α : Type) := List (String × α)

namespace Record

/-- The index that a name spells: decimal digits without leading zeros, below `2 ^ 32 - 1`. -/
def index? (name : String) : Option Nat :=
  match name.toList with
  | [] => none
  | c :: cs =>
    let n := (c :: cs).foldl (fun n c => 10 * n + (c.toNat - 48)) 0
    if (c :: cs).all Char.isDigit && (c != '0' || cs.isEmpty) && n < Nat.pow 2 32 - 1 then some n
    else none

variable {α β : Type}

def get? (r : Record α) (name : String) : Option α :=
  r.lookup name

def names (r : Record α) : List String :=
  r.map (·.1)

def precedes (i : Nat) (f : String × α) : Bool :=
  match index? f.1 with
  | some j => j < i
  | none => false

def insert (r : Record α) (name : String) (value : α) : Record α :=
  if r.any (·.1 == name) then r.map fun f => if f.1 == name then (name, value) else f
  else match index? name with
    | none => r ++ [(name, value)]
    | some i => r.takeWhile (precedes i) ++ (name, value) :: r.dropWhile (precedes i)

def insertAll (r : Record α) (fields : List (String × α)) : Record α :=
  fields.foldl (fun r f => r.insert f.1 f.2) r

def ofList (fields : List (String × α)) : Record α :=
  insertAll [] fields

/-- The fields of both records, those of `inner` winning. -/
def overlay (outer inner : Record α) : Record α :=
  ofList (outer ++ inner)

def mapValues (f : α → β) (r : Record α) : Record β :=
  r.map fun p => (p.1, f p.2)

end Record

end ViewRouting
