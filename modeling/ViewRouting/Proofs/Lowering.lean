import ViewRouting.Proofs.HelperNames
import ViewRouting.Text.Lowercase

/-! Lower-casing a text twice is lower-casing it once. The small letter of a capital is no capital
itself, wherever it stands, and a sigma that has taken its final form keeps it. What is asked of the
case data for this is decided run by run. -/

namespace ViewRouting.Text
namespace Lowercase

def Run.small (r : Run) (n : Nat) : Nat :=
  (n + r.shift).toNat

def Run.codes (r : Run) : List Nat :=
  (List.range ((r.last - r.first) / r.stride + 1)).map fun i => r.first + i * r.stride

def Run.meets (low high : Nat) (r : Run) : Bool :=
  Nat.ble r.first high && Nat.ble low r.last

def Run.near (r : Run) : List Run :=
  capitals.filter (Run.meets (r.small r.first) (r.small r.last))

theorem mem_codes {r : Run} {n : Nat} (h : r.holds n) : n ∈ r.codes := by
  simp only [Run.holds, Bool.and_eq_true, decide_eq_true_eq, beq_iff_eq] at h
  obtain ⟨⟨above, below⟩, even⟩ := h
  refine List.mem_map.mpr ⟨(n - r.first) / r.stride, ?_, ?_⟩
  · have : (n - r.first) / r.stride ≤ (r.last - r.first) / r.stride :=
      Nat.div_le_div_right (Nat.sub_le_sub_right below _)
    exact List.mem_range.mpr (by omega)
  · rw [Nat.div_mul_cancel (Nat.dvd_of_mod_eq_zero even)]
    omega

theorem near_apart :
    (capitals.all fun r => r.near.all fun s => r.codes.all fun n => !s.holds (r.small n)) = true := by
  decide +kernel

theorem small_codes :
    (capitals.all fun r => r.codes.all fun n =>
      let m := r.small n
      Nat.ble 0x61 m && m != 0x130 &&
        (Nat.blt m 0xD800 || Nat.ble 0xE000 m && Nat.blt m 0x110000)) = true := by
  decide +kernel

theorem small_apart {r s : Run} (hr : r ∈ capitals) (hs : s ∈ capitals) {n : Nat}
    (h : r.holds n) : s.holds (r.small n) = false := by
  by_cases meets : s.meets (r.small r.first) (r.small r.last)
  · have near : s ∈ r.near := List.mem_filter.mpr ⟨hs, meets⟩
    have apart := List.all_eq_true.mp near_apart r hr
    have apart := List.all_eq_true.mp (List.all_eq_true.mp apart s near) n (mem_codes h)
    simpa using apart
  · simp only [Run.holds, Bool.and_eq_true, decide_eq_true_eq] at h
    have low : r.small r.first ≤ r.small n := by
      unfold Run.small
      omega
    have high : r.small n ≤ r.small r.last := by
      unfold Run.small
      omega
    have outside : ¬(s.first ≤ r.small n ∧ r.small n ≤ s.last) := by
      rintro ⟨above, below⟩
      apply meets
      simp only [Run.meets, Bool.and_eq_true, Nat.ble_eq]
      exact ⟨Nat.le_trans above high, Nat.le_trans low below⟩
    simp only [Run.holds, Bool.and_eq_false_iff, decide_eq_false_iff_not]
    exact .inl (by omega)

end Lowercase

open Lowercase

/-- A character that lower-casing leaves alone, whatever stands beside it. -/
def Settled (c : Char) : Prop :=
  c ≠ 'Σ' ∧ lowerChar c = [c]

instance (c : Char) : Decidable (Settled c) :=
  inferInstanceAs (Decidable (_ ∧ _))

theorem settled_of_free {c : Char} (beyond : 0x80 ≤ c.toNat) (dotted : c ≠ 'İ')
    (free : ∀ r ∈ capitals, r.holds c.toNat = false) : Settled c := by
  constructor
  · rintro rfl
    have sigma : capitals.any (·.holds 'Σ'.toNat) = true := by decide
    obtain ⟨r, hr, held⟩ := List.any_eq_true.mp sigma
    exact Bool.eq_false_iff.mp (free r hr) held
  · have none : capitals.find? (·.holds c.toNat) = none := by
      rw [List.find?_eq_none]
      intro r hr
      simp [free r hr]
    rw [lowerChar, if_neg (by omega), if_neg dotted, none]

theorem small_settled {r : Run} (hr : r ∈ capitals) {n : Nat} (h : r.holds n) :
    Settled (Char.ofNat (r.small n)) := by
  have code := List.all_eq_true.mp (List.all_eq_true.mp small_codes r hr) n (mem_codes h)
  simp only [Bool.and_eq_true, Bool.or_eq_true, Nat.ble_eq, Nat.blt_eq, bne_iff_ne] at code
  obtain ⟨⟨small, dotted⟩, valid⟩ := code
  have same : (Char.ofNat (r.small n)).toNat = r.small n := by
    have valid : (r.small n).isValidChar := by
      unfold Nat.isValidChar
      omega
    rw [Char.ofNat, dif_pos valid]
    rfl
  by_cases ascii : r.small n < 0x80
  · have all : ∀ m < 0x80, 0x61 ≤ m → Settled (Char.ofNat m) := by decide
    exact all _ ascii small
  · apply settled_of_free
    · omega
    · intro h
      apply dotted
      rw [← same, h]
      rfl
    · intro s hs
      rw [same]
      exact small_apart hr hs h

theorem lowerChar_settled {c d : Char} (h : d ∈ lowerChar c) : Settled d := by
  rw [lowerChar] at h
  split at h
  · next ascii =>
    rw [List.mem_singleton.mp h]
    exact Naming.forall_ascii (p := fun c => Settled c.toLower) (by decide) ascii
  · next beyond =>
    split at h
    · have all : ∀ d ∈ ['i', '\u0307'], Settled d :=
        List.forall_mem_cons.mpr ⟨by decide, List.forall_mem_singleton.mpr (by decide)⟩
      exact all d h
    · next dotted =>
      cases found : capitals.find? (·.holds c.toNat) with
      | some r =>
        rw [found] at h
        rw [List.mem_singleton.mp h]
        have held : r.holds c.toNat := by simpa using List.find?_some found
        exact small_settled (List.mem_of_find?_eq_some found) held
      | none =>
        rw [found] at h
        rw [List.mem_singleton.mp h]
        apply settled_of_free (by omega) dotted
        intro r hr
        simpa using List.find?_eq_none.mp found r hr

theorem lowerFrom_settled (inWord : Bool) (cs : List Char) :
    ∀ d ∈ lowerFrom inWord cs, Settled d := by
  induction cs generalizing inWord with
  | nil => simp [lowerFrom]
  | cons c cs ih =>
    intro d hd
    rw [lowerFrom, List.mem_append] at hd
    rcases hd with hd | hd
    · split at hd
      · have all : ∀ b : Bool, Settled (if b then 'ς' else 'σ') := by decide
        rw [List.mem_singleton.mp hd]
        exact all _
      · exact lowerChar_settled hd
    · exact ih _ d hd

theorem lowerFrom_of_settled (inWord : Bool) {cs : List Char} (settled : ∀ c ∈ cs, Settled c) :
    lowerFrom inWord cs = cs := by
  induction cs generalizing inWord with
  | nil => rfl
  | cons c cs ih =>
    obtain ⟨⟨sigma, alone⟩, rest⟩ := List.forall_mem_cons.mp settled
    rw [lowerFrom, if_neg sigma, alone, ih _ rest, List.singleton_append]

theorem lower_lower (s : String) : lower (lower s) = lower s := by
  rw [lower, lower, String.toList_ofList,
    lowerFrom_of_settled false (lowerFrom_settled false s.toList)]

end ViewRouting.Text
