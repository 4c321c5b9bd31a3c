/-! Texts: blanks at their ends, separators, lengths in 16-bit units, quotes and percent forms. -/

/-! Blank characters and trimming. Twenty-five characters count as blank: the ASCII controls from
tab to carriage return, the space, the no-break and byte-order marks, and the spaces and line
separators of the general punctuation block. -/

namespace ViewRouting.Text

def isBlank (c : Char) : Bool :=
  let n := c.toNat
  (0x9 ≤ n && n ≤ 0xD) || n == 0x20 || n == 0xA0 || n == 0x1680 || (0x2000 ≤ n && n ≤ 0x200A)
    || n == 0x2028 || n == 0x2029 || n == 0x202F || n == 0x205F || n == 0x3000 || n == 0xFEFF

def trim (s : String) : String :=
  String.ofList ((s.toList.dropWhile isBlank).reverse.dropWhile isBlank).reverse

/-! Splitting a text at a separator and joining pieces with one. -/

/-- The pieces between the occurrences of `separator`; an empty text is one empty piece. -/
def split (separator : Char) (s : String) : List String :=
  (s.toList.splitOn separator).map String.ofList

def join (separator : String) (pieces : List String) : String :=
  separator.intercalate pieces

theorem join_split (separator : Char) (s : String) :
    join (String.singleton separator) (split separator s) = s := by
  apply String.toList_injective
  simp [join, split, String.toList_intercalate, Function.comp_def, List.intercalate_splitOn]

theorem split_join (separator : Char) {pieces : List String}
    (clean : ∀ p ∈ pieces, separator ∉ p.toList) (nonempty : pieces ≠ []) :
    split separator (join (String.singleton separator) pieces) = pieces := by
  have h : (pieces.map String.toList).map String.ofList = pieces := by
    simp [Function.comp_def, String.ofList_toList]
  rw [split, join, String.toList_intercalate, String.toList_singleton,
    List.splitOn_intercalate separator (by simpa using clean) (by simpa using nonempty), h]

/-! Lengths, cuts and paddings counted in 16-bit units: a character beyond `U+FFFF` takes two. -/

def unitsOf (c : Char) : Nat :=
  if c.toNat < 0x10000 then 1 else 2

def width (s : String) : Nat :=
  s.toList.foldr (fun c n => unitsOf c + n) 0

@[simp] theorem width_append (s t : String) : width (s ++ t) = width s + width t := by
  rw [width, width, width, String.toList_append]
  induction s.toList with
  | nil => simp
  | cons c cs ih => rw [List.cons_append, List.foldr_cons, List.foldr_cons, ih, Nat.add_assoc]

theorem width_cons (c : Char) (cs : List Char) :
    width (String.ofList (c :: cs)) = unitsOf c + width (String.ofList cs) := by
  simp only [width, String.toList_ofList, List.foldr_cons]

theorem width_plain {cs : List Char} (plain : ∀ c ∈ cs, c.toNat < 0x10000) :
    width (String.ofList cs) = cs.length := by
  induction cs with
  | nil => rfl
  | cons c cs ih =>
    obtain ⟨head, rest⟩ := List.forall_mem_cons.mp plain
    have unit : unitsOf c = 1 := if_pos head
    rw [width_cons, unit, ih rest, List.length_cons, Nat.add_comm]

def firstHalf (c : Char) : UInt16 :=
  UInt16.ofNat (0xD800 + (c.toNat - 0x10000) / 0x400)

/-- The beginning of a text: whole characters, and the first half of one that the cut parts. -/
structure Cut where
  whole : String
  half : Option UInt16 := none
  deriving DecidableEq, Repr

/-- What stands for half a character in a text. -/
def replacement : String := "\ufffd"

def Cut.text (c : Cut) : String :=
  if c.half.isSome then c.whole ++ replacement else c.whole

def takeUnits : Nat → List Char → List Char × Option UInt16
  | 0, _ => ([], none)
  | _, [] => ([], none)
  | n + 1, c :: cs =>
    if c.toNat < 0x10000 then
      let (taken, half) := takeUnits n cs
      (c :: taken, half)
    else match n with
      | 0 => ([], some (firstHalf c))
      | n + 1 =>
        let (taken, half) := takeUnits n cs
        (c :: taken, half)

def cut (n : Nat) (s : String) : Cut :=
  let (taken, half) := takeUnits n s.toList
  ⟨String.ofList taken, half⟩

theorem Cut.width_text (c : Cut) :
    width c.text = width c.whole + if c.half.isSome then 1 else 0 := by
  have unit : width replacement = 1 := by decide
  rw [Cut.text]
  split
  · rw [width_append, unit]
  · rfl

theorem width_takeUnits (n : Nat) (cs : List Char) :
    width (String.ofList (takeUnits n cs).1) +
      (if (takeUnits n cs).2.isSome then 1 else 0) ≤ n := by
  fun_induction takeUnits n cs with
  | case1 => simp [width]
  | case2 => simp [width]
  | case3 n c cs plain taken half same ih =>
    have unit : unitsOf c = 1 := if_pos plain
    simp only [same] at ih
    simp only [width_cons, unit]
    omega
  | case4 c cs wide => simp [width]
  | case5 c cs wide n taken half same ih =>
    have units : unitsOf c = 2 := if_neg wide
    simp only [same] at ih
    simp only [width_cons, units]
    omega

theorem width_cut (n : Nat) (s : String) : width (cut n s).text ≤ n := by
  rw [Cut.width_text]
  exact width_takeUnits n s.toList

def spaces (n : Nat) : String :=
  String.ofList (List.replicate n ' ')

def padLeft (n : Nat) (s : String) : String :=
  spaces (n - width s) ++ s

def padRight (n : Nat) (s : String) : String :=
  s ++ spaces (n - width s)

@[simp] theorem width_spaces (n : Nat) : width (spaces n) = n := by
  rw [width, spaces, String.toList_ofList]
  induction n with
  | zero => rfl
  | succ n ih =>
    have space : unitsOf ' ' = 1 := rfl
    rw [List.replicate_succ, List.foldr_cons, ih, space, Nat.add_comm]

theorem width_padLeft {n : Nat} {s : String} (fits : width s ≤ n) : width (padLeft n s) = n := by
  rw [padLeft, width_append, width_spaces, Nat.sub_add_cancel fits]

theorem width_padRight {n : Nat} {s : String} (fits : width s ≤ n) : width (padRight n s) = n := by
  rw [padRight, width_append, width_spaces, Nat.add_sub_cancel' fits]

/-! Quoted text: a text between double quotes. The quote and the backslash are escaped, and so are
every control character below the space and half a character; all else stands as it is. -/

/-- The hexadecimal digit of `d < 16`, in the case of `ten`, the digit of ten. -/
def hexDigit (ten : Char) (d : Nat) : Char :=
  if d < 10 then Char.ofNat (0x30 + d) else Char.ofNat (ten.toNat + d - 10)

def escape (c : Char) : List Char :=
  if c = '"' then ['\\', '"']
  else if c = '\\' then ['\\', '\\']
  else if 0x20 ≤ c.toNat then [c]
  else if c.toNat = 0x8 then ['\\', 'b']
  else if c.toNat = 0x9 then ['\\', 't']
  else if c.toNat = 0xA then ['\\', 'n']
  else if c.toNat = 0xC then ['\\', 'f']
  else if c.toNat = 0xD then ['\\', 'r']
  else ['\\', 'u', '0', '0', hexDigit 'a' (c.toNat / 16), hexDigit 'a' (c.toNat % 16)]

def escapeUnit (unit : UInt16) : List Char :=
  let digit (place : Nat) := hexDigit 'a' (unit.toNat / Nat.pow 16 place % 16)
  ['\\', 'u', digit 3, digit 2, digit 1, digit 0]

def quoted (s : String) : String :=
  String.ofList ('"' :: s.toList.flatMap escape ++ ['"'])

def Cut.quoted (c : Cut) : String :=
  String.ofList ('"' :: c.whole.toList.flatMap escape ++ c.half.toList.flatMap escapeUnit ++ ['"'])

/-! Percent forms: a character outside the kept set is written as its UTF-8 bytes, each as a percent
sign and two capital hexadecimal digits. Path components and query fields keep different sets, and a
query field writes a space as a plus sign. -/

def percentByte (b : UInt8) : List Char :=
  ['%', hexDigit 'A' (b.toNat / 16), hexDigit 'A' (b.toNat % 16)]

def percentChar (c : Char) : List Char :=
  (String.utf8EncodeChar c).flatMap percentByte

def keptInComponent (c : Char) : Bool :=
  c.isAlphanum || "-_.!~*'()".toList.contains c

def componentChar (c : Char) : List Char :=
  if keptInComponent c then [c] else percentChar c

def component (s : String) : String :=
  String.ofList (s.toList.flatMap componentChar)

def keptInField (c : Char) : Bool :=
  c.isAlphanum || "*-._".toList.contains c

def fieldChar (c : Char) : List Char :=
  if keptInField c then [c] else if c = ' ' then ['+'] else percentChar c

def field (s : String) : String :=
  String.ofList (s.toList.flatMap fieldChar)

def query (fields : List (String × String)) : String :=
  "&".intercalate (fields.map fun f => field f.1 ++ "=" ++ field f.2)

end ViewRouting.Text
