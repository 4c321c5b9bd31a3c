import Mathlib.Data.Nat.Digits.Defs
import Mathlib.Tactic.Ring
import ViewRouting.Number.Decimal
import ViewRouting.Text

/-! Lengths of numbers. The shortest decimal of a number has at most seventeen significant digits,
and its exponent lies within the range of the format, so that no number takes more than twenty-five
units. Nothing is said here of the decimal reading back as the number. -/

namespace ViewRouting

theorem Binary64.roundDiv_le (n d : Nat) : roundDiv n d ≤ n / d + 1 := by
  rw [roundDiv]
  split
  · omega
  · split
    · omega
    · have := Nat.mod_lt (n / d) (by omega : 0 < 2)
      omega

namespace Neighbourhood

variable {s : Neighbourhood}

theorem value_lt_point (positive : 0 < s.unit) :
    s.value * 10 ^ (-s.point).toNat < s.unit * 10 ^ s.point.toNat := by
  have length (n : Nat) := Nat.length_toDigits_pos (b := 10) (n := n)
  rw [point]
  split
  case isTrue large =>
    generalize same : (Nat.toDigits 10 (s.value / s.unit)).length = places
    have below : s.value / s.unit < 10 ^ places :=
      (Nat.length_toDigits_le_iff (by omega) (same ▸ length _)).mp same.le
    have negative : (-(places : Int)).toNat = 0 := by omega
    rw [negative, pow_zero, mul_one, Int.toNat_natCast, Nat.mul_comm]
    exact (Nat.div_lt_iff_lt_mul positive).mp below
  case isFalse small =>
    generalize same : (Nat.toDigits 10 ((s.unit - 1) / s.value)).length = places
    have some : 0 < places := same ▸ length _
    have left : (-(1 - (places : Int))).toNat = places - 1 := by omega
    have right : (1 - (places : Int)).toNat = 0 := by omega
    rw [left, right, pow_zero, mul_one]
    rcases Nat.eq_or_lt_of_le some with single | several
    -- A single digit may be a zero, so that it says nothing of the quotient.
    · rw [← single]
      simpa using small
    · have above : 10 ^ (places - 1) ≤ (s.unit - 1) / s.value := by
        rw [← Nat.not_lt, ← Nat.length_toDigits_le_iff (by omega) (by omega), same]
        omega
      have product : s.value * 10 ^ (places - 1) ≤ s.unit - 1 :=
        (Nat.mul_le_mul_left _ above).trans (Nat.mul_div_le _ _)
      omega

theorem gridded_lt {exponent : Int} {n : Nat} (positive : 0 < s.unit)
    (near : s.point ≤ exponent + n) :
    s.value * 10 ^ (-exponent).toNat / (s.unit * 10 ^ exponent.toNat) < 10 ^ n := by
  have places : s.point.toNat + (-exponent).toNat ≤ exponent.toNat + (-s.point).toNat + n := by
    omega
  -- One of the two powers at the point is trivial; the other moves to the side of the grid.
  rw [Nat.div_lt_iff_lt_mul (Nat.mul_pos positive (by positivity))]
  apply Nat.lt_of_mul_lt_mul_right (a := 10 ^ (-s.point).toNat)
  calc s.value * 10 ^ (-exponent).toNat * 10 ^ (-s.point).toNat
      = s.value * 10 ^ (-s.point).toNat * 10 ^ (-exponent).toNat := by ring
    _ < s.unit * 10 ^ s.point.toNat * 10 ^ (-exponent).toNat :=
      Nat.mul_lt_mul_of_pos_right (value_lt_point positive) (by positivity)
    _ = s.unit * 10 ^ (s.point.toNat + (-exponent).toNat) := by ring
    _ ≤ s.unit * 10 ^ (exponent.toNat + (-s.point).toNat + n) :=
      Nat.mul_le_mul_left _ (Nat.pow_le_pow_right (by omega) places)
    _ = 10 ^ n * (s.unit * 10 ^ exponent.toNat) * 10 ^ (-s.point).toNat := by ring

theorem onGrid?_bounds {exponent : Int} {n : Nat} {d : Decimal} (positive : 0 < s.unit)
    (near : s.point ≤ exponent + n) (found : s.onGrid? exponent = some d) :
    d.exponent = exponent ∧ d.digits ≤ 10 ^ n := by
  have below := gridded_lt positive near
  rw [onGrid?] at found
  split at found <;> cases found
  case h_1 => exact ⟨rfl, (Binary64.roundDiv_le _ _).trans below⟩
  case h_2 => exact ⟨rfl, below.le⟩
  case h_3 => exact ⟨rfl, below⟩

theorem shortest_bounds (positive : 0 < s.unit) :
    s.shortest.digits ≤ 10 ^ 17 ∧ s.point - 17 ≤ s.shortest.exponent ∧
      s.shortest.exponent < s.point := by
  rw [shortest]
  cases found : (List.range 17).findSome? fun i : Nat => s.onGrid? (s.point - 1 - i) with
  | none =>
    have last : s.point ≤ s.point - 17 + (17 : Nat) := by omega
    exact ⟨(gridded_lt positive last).le, le_rfl, by simp⟩
  | some d =>
    obtain ⟨i, member, found⟩ := List.exists_of_findSome?_eq_some found
    have few := List.mem_range.mp member
    obtain ⟨place, digits⟩ := onGrid?_bounds (n := i + 1) positive (by omega) found
    refine ⟨digits.trans (Nat.pow_le_pow_right (by omega) few), ?_, ?_⟩ <;>
      rw [Option.getD_some, place] <;> omega

theorem point_bounds (places : Nat) (some : 0 < places) (value : s.value < 10 ^ places)
    (unit : s.unit < 10 ^ places) : -(places : Int) < s.point ∧ s.point ≤ places := by
  rw [point]
  split
  · have quotient := (Nat.div_le_self s.value s.unit).trans_lt value
    have few := Nat.toDigits_length 10 _ places some quotient
    omega
  · have quotient : (s.unit - 1) / s.value < 10 ^ places :=
      (Nat.div_le_self _ _).trans_lt (by omega)
    have few := Nat.toDigits_length 10 _ places some quotient
    omega

end Neighbourhood

namespace Binary64

theorem pow_two_le {n places : Nat} (few : n ≤ 3 * places) : 2 ^ n ≤ 10 ^ places :=
  calc 2 ^ n ≤ 2 ^ (3 * places) := Nat.pow_le_pow_right (by omega) few
    _ = 8 ^ places := pow_mul 2 3 places
    _ ≤ 10 ^ places := Nat.pow_le_pow_left (by omega) places

theorem significand_lt (x : Binary64) : x.significand < 2 ^ 53 := by
  have fraction : x.fraction < 2 ^ 52 := Nat.mod_lt _ (Nat.pow_pos (by omega))
  have normal : 2 ^ 52 + x.fraction < 2 ^ 53 := by omega
  rw [significand]
  split
  · omega
  · exact normal

theorem scale_bounds (x : Binary64) : 1 ≤ x.scale ∧ x.scale ≤ 2047 := by
  have field : x.exponentField < 2048 := Nat.mod_lt _ (by omega)
  rw [scale]
  omega

theorem point_bounds (x : Binary64) :
    -359 < (Neighbourhood.ofBinary x).point ∧ (Neighbourhood.ofBinary x).point ≤ 359 := by
  obtain ⟨low, high⟩ := x.scale_bounds
  have significand : 4 * x.significand < 2 ^ 55 := by
    have := x.significand_lt
    omega
  have value : (Neighbourhood.ofBinary x).value < 10 ^ 359 :=
    calc 4 * x.significand * 2 ^ (x.scale - 1075)
        < 2 ^ 55 * 2 ^ (x.scale - 1075) := Nat.mul_lt_mul_of_pos_right significand (by positivity)
      _ = 2 ^ (55 + (x.scale - 1075)) := (pow_add 2 55 _).symm
      _ ≤ 10 ^ 359 := pow_two_le (by omega)
  have unit : (Neighbourhood.ofBinary x).unit < 10 ^ 359 :=
    calc 4 * 2 ^ (1075 - x.scale)
        < 2 ^ 3 * 2 ^ (1075 - x.scale) := Nat.mul_lt_mul_of_pos_right (by omega) (by positivity)
      _ = 2 ^ (3 + (1075 - x.scale)) := (pow_add 2 3 _).symm
      _ ≤ 10 ^ 359 := pow_two_le (by omega)
  exact Neighbourhood.point_bounds 359 (by decide) value unit

theorem shortest_bounds (x : Binary64) :
    x.shortest.digits ≤ 10 ^ 17 ∧ -376 < x.shortest.exponent ∧ x.shortest.exponent < 359 := by
  have positive : 0 < (Neighbourhood.ofBinary x).unit :=
    Nat.mul_pos (by omega) (Nat.pow_pos (by omega))
  obtain ⟨digits, low, high⟩ := Neighbourhood.shortest_bounds positive
  obtain ⟨below, above⟩ := x.point_bounds
  refine ⟨digits, ?_, ?_⟩ <;> rw [shortest] <;> omega

end Binary64

namespace Decimal

theorem significantDigits_tenfold {d d' : Decimal} (positive : 0 < d.digits)
    (tenfold : d'.digits = 10 * d.digits) : d'.significantDigits = d.significantDigits := by
  have more : Nat.toDigits 10 d'.digits = Nat.toDigits 10 d.digits ++ ['0'] := by
    rw [Nat.toDigits_of_base_le (by omega) (by omega), tenfold,
      Nat.mul_div_cancel_left _ (by omega), Nat.mul_mod_right]
    rfl
  simp [significantDigits, more]

theorem significantDigits_power {d : Decimal} {n : Nat} (power : d.digits = 10 ^ n) :
    d.significantDigits = ['1'] := by
  induction n generalizing d with
  | zero =>
    rw [significantDigits, power]
    rfl
  | succ n ih =>
    rw [← ih (d := ⟨10 ^ n, 0⟩) rfl]
    exact significantDigits_tenfold (by positivity) (by rw [power, pow_succ, Nat.mul_comm])

theorem length_significantDigits {d : Decimal} {n : Nat} (some : 0 < n)
    (few : d.digits ≤ 10 ^ n) : d.significantDigits.length ≤ n := by
  -- Rounding up may reach the power of ten itself. It has a digit more, but a single significant
  -- one.
  rcases few.lt_or_eq with below | power
  · have written := Nat.toDigits_length 10 d.digits n some below
    have kept : ((Nat.toDigits 10 d.digits).reverse.dropWhile (· = '0')).length ≤
        (Nat.toDigits 10 d.digits).reverse.length := (List.dropWhile_sublist _).length_le
    rw [List.length_reverse] at kept
    rw [significantDigits, List.length_reverse]
    exact kept.trans written
  · rw [significantDigits_power power]
    exact some

theorem length_layout {digits : List Char} {point : Int} (few : digits.length ≤ 17)
    (low : -999 < point) (high : point ≤ 1000) : (layout digits point).length ≤ 24 := by
  -- A layout adds to seventeen digits at most a point, five zeros and one before it, or the mark,
  -- the sign and three digits of an exponent.
  have exponent := Nat.toDigits_length 10 (point - 1).natAbs 3 (by omega) (by omega)
  rw [layout]
  split
  · split <;> simp only [zeros, List.length_append, List.length_replicate, List.length_take,
      List.length_cons, List.length_drop] <;> omega
  · split
    · simp only [zeros, List.length_append, List.length_replicate, List.length_cons]
      omega
    · rw [scientific]
      split <;> simp only [List.length_append, List.length_take, List.length_cons,
        List.length_drop, List.length_nil] <;> omega

theorem digit_plain {c : Char} (digit : c.isDigit) : c.toNat < 0x10000 := by
  have nine : '9'.val.toNat = 57 := rfl
  simp only [Char.isDigit, Bool.and_eq_true, decide_eq_true_eq, UInt32.le_iff_toNat_le] at digit
  simp only [Char.toNat]
  omega

theorem toDigits_plain (n : Nat) : ∀ c ∈ Nat.toDigits 10 n, c.toNat < 0x10000 :=
  fun _ member => digit_plain (Nat.isDigit_of_mem_toDigits (by omega) (by omega) member)

theorem significantDigits_plain (d : Decimal) :
    ∀ c ∈ d.significantDigits, c.toNat < 0x10000 := by
  intro c member
  apply toDigits_plain d.digits
  rw [significantDigits, List.mem_reverse] at member
  exact List.mem_reverse.mp ((List.dropWhile_sublist _).mem member)

theorem layout_plain {digits : List Char} {point : Int}
    (plain : ∀ c ∈ digits, c.toNat < 0x10000) :
    ∀ c ∈ layout digits point, c.toNat < 0x10000 := by
  have taken (n : Nat) : ∀ c ∈ digits.take n, c.toNat < 0x10000 :=
    fun c member => plain c (List.mem_of_mem_take member)
  have dropped (n : Nat) : ∀ c ∈ digits.drop n, c.toNat < 0x10000 :=
    fun c member => plain c (List.mem_of_mem_drop member)
  have zeros (n : Nat) : ∀ c ∈ zeros n, c.toNat < 0x10000 := by
    intro c member
    rw [(List.mem_replicate.mp member).2]
    decide
  rw [layout]
  split
  · split
    · exact List.forall_mem_append.mpr ⟨plain, zeros _⟩
    · exact List.forall_mem_append.mpr
        ⟨taken _, List.forall_mem_cons.mpr ⟨by decide, dropped _⟩⟩
  · split
    · exact List.forall_mem_append.mpr ⟨List.forall_mem_cons.mpr
        ⟨by decide, List.forall_mem_cons.mpr ⟨by decide, zeros _⟩⟩, plain⟩
    · rw [scientific, List.forall_mem_append, List.forall_mem_append, List.forall_mem_cons,
        List.forall_mem_cons]
      refine ⟨⟨taken 1, ?_⟩, by decide, ?_, toDigits_plain _⟩
      · split
        · simp
        · exact List.forall_mem_cons.mpr ⟨by decide, dropped 1⟩
      · split <;> decide

end Decimal

theorem Binary64.width_text (x : Binary64) : Text.width x.text ≤ 25 := by
  obtain ⟨digits, low, high⟩ := x.shortest_bounds
  have few : x.shortest.significantDigits.length ≤ 17 :=
    Decimal.length_significantDigits (by omega) digits
  have some : 0 < (Nat.toDigits 10 x.shortest.digits).length := Nat.length_toDigits_pos
  have most := Nat.toDigits_length 10 x.shortest.digits 18 (by omega) (digits.trans_lt (by omega))
  have finite : Text.width (String.ofList
      (Decimal.layout x.shortest.significantDigits x.shortest.point)) ≤ 24 := by
    rw [Text.width_plain (Decimal.layout_plain x.shortest.significantDigits_plain)]
    apply Decimal.length_layout few <;> rw [Decimal.point] <;> omega
  have infinite : Text.width "Infinity" ≤ 24 := by decide
  have sign : Text.width "-" = 1 := by decide
  rw [text]
  split
  · decide
  split
  · decide
  dsimp only
  split
  · rw [Text.width_append, sign]
    split <;> omega
  · split <;> omega

/-- Five zeros, seventeen digits and a sign reach the bound. -/
example : Binary64.text ⟨0xBEB4B66DC01EC6FB⟩ = "-0.0000012345678901234567" ∧
    Text.width "-0.0000012345678901234567" = 25 := by
  decide +kernel

end ViewRouting
