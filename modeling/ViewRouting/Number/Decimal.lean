import ViewRouting.Number.Binary64
import ViewRouting.Text

/-! Decimal texts of numbers: how a number is written, and which number a numeral is read as. -/

/-! Shortest decimals. The reals that round to a number form an interval around it; among the
decimals in the interval those with the fewest digits are chosen, of those the nearest, and of two
equally near the even one. All comparisons are exact. -/

namespace ViewRouting

structure Decimal where
  digits : Nat
  exponent : Int
  deriving DecidableEq, Repr

/-- The reals that round to one number, as numerators over `unit`; the ends belong to it if
`closed`. -/
structure Neighbourhood where
  low : Nat
  value : Nat
  high : Nat
  unit : Nat
  closed : Bool

namespace Neighbourhood

/-- Just above a power of two the gap below a number is half the gap above it. -/
def ofBinary (x : Binary64) : Neighbourhood :=
  let gap := Nat.pow 2 (x.scale - 1075)
  let narrow := x.fraction == 0 && 1 < x.exponentField
  { low := (4 * x.significand - if narrow then 1 else 2) * gap
    value := 4 * x.significand * gap
    high := (4 * x.significand + 2) * gap
    unit := 4 * Nat.pow 2 (1075 - x.scale)
    closed := x.significand % 2 == 0 }

def holds (s : Neighbourhood) (d : Decimal) : Bool :=
  let low := s.low * Nat.pow 10 (-d.exponent).toNat
  let high := s.high * Nat.pow 10 (-d.exponent).toNat
  let here := d.digits * Nat.pow 10 d.exponent.toNat * s.unit
  (low < here || (s.closed && low == here)) && (here < high || (s.closed && here == high))

/-- The position of the decimal point relative to the first digit: the least `p` with the value
below `10 ^ p`. -/
def point (s : Neighbourhood) : Int :=
  if s.unit ≤ s.value then (Nat.toDigits 10 (s.value / s.unit)).length
  else 1 - (Nat.toDigits 10 ((s.unit - 1) / s.value)).length

/-- The better of the two multiples of `10 ^ exponent` next to the value, if one is in the interval.
-/
def onGrid? (s : Neighbourhood) (exponent : Int) : Option Decimal :=
  let n := s.value * Nat.pow 10 (-exponent).toNat
  let d := s.unit * Nat.pow 10 exponent.toNat
  let below : Decimal := ⟨n / d, exponent⟩
  let above : Decimal := ⟨n / d + 1, exponent⟩
  match s.holds below, s.holds above with
  | true, true => some ⟨Binary64.roundDiv n d, exponent⟩
  | true, false => some below
  | false, true => some above
  | false, false => none

/-- Seventeen digits always tell a number from its neighbours, so the last grid is never exceeded.
-/
def shortest (s : Neighbourhood) : Decimal :=
  let last := s.point - 17
  let exact := s.value * Nat.pow 10 (-last).toNat / (s.unit * Nat.pow 10 last.toNat)
  ((List.range 17).findSome? fun i : Nat => s.onGrid? (s.point - 1 - i)).getD ⟨exact, last⟩

end Neighbourhood

def Binary64.shortest (x : Binary64) : Decimal :=
  (Neighbourhood.ofBinary x).shortest

/-! Text of numbers. A number is written with its shortest decimal, positionally while the decimal
point stands at most six places before the digits or twenty-one after the first, else with a signed
exponent. Both zeros are `0`. -/

namespace Decimal

def significantDigits (d : Decimal) : List Char :=
  ((Nat.toDigits 10 d.digits).reverse.dropWhile (· = '0')).reverse

def point (d : Decimal) : Int :=
  (Nat.toDigits 10 d.digits).length + d.exponent

def zeros (n : Nat) : List Char :=
  List.replicate n '0'

def scientific (digits : List Char) (exponent : Int) : List Char :=
  digits.take 1 ++ (if digits.length ≤ 1 then [] else '.' :: digits.drop 1)
    ++ 'e' :: (if 0 ≤ exponent then '+' else '-') :: Nat.toDigits 10 exponent.natAbs

/-- `digits` with the decimal point after the first `point` of them. -/
def layout (digits : List Char) (point : Int) : List Char :=
  if 0 < point ∧ point ≤ 21 then
    if digits.length ≤ point.toNat then digits ++ zeros (point.toNat - digits.length)
    else digits.take point.toNat ++ '.' :: digits.drop point.toNat
  else if -6 < point ∧ point ≤ 0 then '0' :: '.' :: zeros (-point).toNat ++ digits
  else scientific digits (point - 1)

end Decimal

def Binary64.text (x : Binary64) : String :=
  if x.isNaN then "NaN"
  else if x.isZero then "0"
  else
    let magnitude :=
      if x.isFinite then
        String.ofList (Decimal.layout x.shortest.significantDigits x.shortest.point)
      else "Infinity"
    if x.negative then "-" ++ magnitude else magnitude

/-! Numbers written as texts. A numeral is a decimal with a sign, a fraction and an exponent, each
of them optional, or `Infinity`, or a whole number to base sixteen, eight or two behind `0x`, `0o`
or `0b`. Blanks around it do not matter, and a blank text is zero. Any other text is no number. -/

namespace Numeral

def digitValue (c : Char) : Nat :=
  if c.isDigit then c.toNat - 0x30
  else if 'a' ≤ c ∧ c ≤ 'z' then c.toNat - 0x61 + 10
  else if 'A' ≤ c ∧ c ≤ 'Z' then c.toNat - 0x41 + 10
  else 36

def whole? (base : Nat) (cs : List Char) : Option Nat :=
  if cs != [] && cs.all (digitValue · < base) then
    some (cs.foldl (fun n c => base * n + digitValue c) 0)
  else none

def signed : List Char → Bool × List Char
  | '+' :: cs => (false, cs)
  | '-' :: cs => (true, cs)
  | cs => (false, cs)

def exponent? : List Char → Option Int
  | [] => some 0
  | c :: cs =>
    let (negative, digits) := signed cs
    if c = 'e' ∨ c = 'E' then
      (whole? 10 digits).map fun n : Nat => if negative then -(n : Int) else n
    else none

def fraction : List Char → List Char × List Char
  | '.' :: cs => (cs.takeWhile Char.isDigit, cs.dropWhile Char.isDigit)
  | cs => ([], cs)

def decimal? (cs : List Char) : Option Decimal :=
  let (behind, rest) := fraction (cs.dropWhile Char.isDigit)
  match whole? 10 (cs.takeWhile Char.isDigit ++ behind), exponent? rest with
  | some digits, some exponent => some ⟨digits, exponent - behind.length⟩
  | _, _ => none

end Numeral

/-- The number nearest to a decimal. A decimal beyond `10 ^ 310` or below `10 ^ (-330)` is not
multiplied out. -/
def Decimal.nearest (negative : Bool) (d : Decimal) : Binary64 :=
  let size := (Nat.toDigits 10 d.digits).length + d.exponent
  if d.digits = 0 ∨ size < -330 then .ofFields negative 0 0
  else if 311 < size then .infinity negative
  else .ofRatio negative (d.digits * Nat.pow 10 d.exponent.toNat)
    (Nat.pow 10 (-d.exponent).toNat)

namespace Binary64

def ofMarked (base : Nat) (cs : List Char) : Binary64 :=
  ((Numeral.whole? base cs).map ofNat).getD nan

def ofDecimal (cs : List Char) : Binary64 :=
  let (negative, magnitude) := Numeral.signed cs
  if magnitude = "Infinity".toList then infinity negative
  else ((Numeral.decimal? magnitude).map (Decimal.nearest negative)).getD nan

def ofText (s : String) : Binary64 :=
  match (Text.trim s).toList with
  | [] => zero
  | '0' :: 'x' :: cs | '0' :: 'X' :: cs => ofMarked 16 cs
  | '0' :: 'o' :: cs | '0' :: 'O' :: cs => ofMarked 8 cs
  | '0' :: 'b' :: cs | '0' :: 'B' :: cs => ofMarked 2 cs
  | cs => ofDecimal cs

end Binary64

end ViewRouting
