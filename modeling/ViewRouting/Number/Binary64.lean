/-! Numbers of the 64-bit binary format, held as their word: a sign, eleven bits of exponent and
fifty-two of fraction. A finite number is `significand * 2 ^ (scale - 1075)`. -/

namespace ViewRouting

structure Binary64 where
  bits : UInt64
  deriving DecidableEq, Repr

namespace Binary64

def negative (x : Binary64) : Bool :=
  Nat.pow 2 63 ≤ x.bits.toNat

def exponentField (x : Binary64) : Nat :=
  x.bits.toNat / Nat.pow 2 52 % 2048

def fraction (x : Binary64) : Nat :=
  x.bits.toNat % Nat.pow 2 52

def isFinite (x : Binary64) : Bool :=
  x.exponentField < 2047

def isNaN (x : Binary64) : Bool :=
  !x.isFinite && x.fraction != 0

def isZero (x : Binary64) : Bool :=
  x.exponentField == 0 && x.fraction == 0

def significand (x : Binary64) : Nat :=
  if x.exponentField = 0 then x.fraction else Nat.pow 2 52 + x.fraction

def scale (x : Binary64) : Nat :=
  max 1 x.exponentField

def ofFields (negative : Bool) (exponentField fraction : Nat) : Binary64 :=
  ⟨UInt64.ofNat ((if negative then Nat.pow 2 63 else 0) + exponentField * Nat.pow 2 52 + fraction)⟩

def zero : Binary64 := ofFields false 0 0

def nan : Binary64 := ofFields false 2047 (Nat.pow 2 51)

def infinity (negative : Bool) : Binary64 := ofFields negative 2047 0

/-- The quotient `n / d` rounded to the nearest natural number, a half to the even one. -/
def roundDiv (n d : Nat) : Nat :=
  let q := n / d
  let r := n % d
  if 2 * r < d then q else if d < 2 * r then q + 1 else q + q % 2

/-- The greatest `e` with `2 ^ e` at most `n / d`, for positive `n` and `d`. -/
def ratioLog2 (n d : Nat) : Int :=
  let e : Int := n.log2 - d.log2
  if n * Nat.pow 2 (-e).toNat < d * Nat.pow 2 e.toNat then e - 1 else e

/-- The magnitude nearest to `n / d` with that sign, a tie going to the even significand. -/
def ofRatio (negative : Bool) (n d : Nat) : Binary64 :=
  let e := max (ratioLog2 n d) (-1022)
  let unit := e - 52
  if n = 0 then ofFields negative 0 0
  else if 1024 ≤ e then infinity negative
  else ofFields negative (e + 1022).toNat
    (roundDiv (n * Nat.pow 2 (-unit).toNat) (d * Nat.pow 2 unit.toNat))

def ofNat (n : Nat) : Binary64 :=
  ofRatio false n 1

def ofInt (n : Int) : Binary64 :=
  ofRatio (n < 0) n.natAbs 1

def wholePart (x : Binary64) : Nat :=
  x.significand * Nat.pow 2 (x.scale - 1075) / Nat.pow 2 (1075 - x.scale)

end Binary64

end ViewRouting
