import MinConflicts.Proofs.Effects
import MinConflicts.Proofs.ExactOrder
import MinConflicts.Proofs.Rounding

/-!
# Positions that draws stand for

A draw in the unit interval, both ends included, never stands for a position outside a collection:
the product with the size is not negative, so its integer part is not either, and the last
position bounds it from above. It stands for some position, as the product is a finite number.
Members are looked up at such positions.
-/
namespace MinConflicts

namespace Binary64

/-- Whether a number lies in the unit interval, by exact value and with both ends. -/
def InUnit (x : Binary64) : Prop :=
  Number.le (.int 0) (.float x) = true ∧ Number.le (.float x) (.int 1) = true

instance (x : Binary64) : Decidable x.InUnit := inferInstanceAs (Decidable (_ ∧ _))

theorem signBit_pack (neg : Bool) (mant : Nat) (exp : Int) : (pack neg mant exp).signBit = neg := by
  unfold pack
  split_ifs <;> rfl

theorem signBit_round (neg : Bool) (num den : Nat) (e : Int) :
    (round neg num den e).signBit = neg := by
  unfold round
  split_ifs
  · rfl
  · exact signBit_pack _ _ _

theorem neg_of_round {neg : Bool} {num den : Nat} {e : Int} {x : Finite}
    (h : round neg num den e = .finite x) : x.neg = neg := by
  have hsign := signBit_round neg num den e
  rwa [h] at hsign

theorem truncate_nonneg {x : Binary64} (h : x.signBit = false) {z : Int}
    (hz : x.truncate = .ok z) : 0 ≤ z := by
  cases x with
  | nan l => cases hz
  | infinity s => cases hz
  | finite x =>
    cases hz
    simp only [signBit] at h
    rw [Finite.truncate, h]
    exact Int.natCast_nonneg _

theorem zero_truncate_nonneg {neg : Bool} {z : Int} (hz : (zero neg).truncate = .ok z) :
    0 ≤ z := by
  cases neg <;> cases hz <;> decide

theorem InUnit.exists_finite {x : Binary64} (h : x.InUnit) :
    ∃ y : Finite, x = .finite y ∧ (y.neg = false ∨ y.mant = 0) := by
  obtain ⟨hlow, hhigh⟩ := h
  cases x with
  | nan l => cases hlow
  | infinity s => cases s <;> simp [Number.le, Number.compare?, compareInt?] at hlow hhigh
  | finite y =>
    refine ⟨y, rfl, ?_⟩
    rw [Number.int_le_finite, Int.cast_zero] at hlow
    cases hn : y.neg with
    | false => exact .inl rfl
    | true =>
      rw [Finite.toRat_of_neg hn] at hlow
      have hm := y.magnitude_nonneg
      exact .inr (Finite.mant_eq_zero_of_magnitude (by linarith))

theorem InUnit.exp_le {x : Finite} (h : InUnit (.finite x)) : x.exp ≤ -52 := by
  obtain ⟨y, hy, hsign⟩ := h.exists_finite
  cases hy
  obtain ⟨-, hhigh⟩ := h
  rw [Number.finite_le_int, Int.cast_one] at hhigh
  obtain ⟨-, -, -, hfull⟩ := x.canonical
  by_contra hexp
  have hmant : 0x10000000000000 ≤ x.mant := by omega
  have hneg : x.neg = false := hsign.resolve_right (by omega)
  rw [Finite.toRat_of_pos hneg] at hhigh
  have htwo : (2 : ℚ) ≤ x.magnitude := by
    calc (2 : ℚ) = (0x10000000000000 : ℕ) * 2 ^ (-51 : ℤ) := by norm_num
      _ ≤ x.mant * 2 ^ (-51 : ℤ) :=
        mul_le_mul_of_nonneg_right (by exact_mod_cast hmant) (two_zpow_pos _).le
      _ ≤ x.mant * 2 ^ x.exp :=
        mul_le_mul_of_nonneg_left (zpow_le_zpow_right₀ one_le_two (by omega)) (Nat.cast_nonneg _)
  linarith

theorem InUnit.mant_le {x : Finite} (h : InUnit (.finite x)) :
    x.mant ≤ 2 ^ (-x.exp).toNat := by
  obtain ⟨y, hy, hsign⟩ := h.exists_finite
  cases hy
  rcases hsign with hneg | hzero
  · have hexp := h.exp_le
    obtain ⟨-, hhigh⟩ := h
    rw [Number.finite_le_int, Int.cast_one, Finite.toRat_of_pos hneg, Finite.magnitude] at hhigh
    have hpow : (2 : ℚ) ^ x.exp * 2 ^ (-x.exp).toNat = 1 := by
      rw [← zpow_natCast, ← zpow_add₀ two_ne_zero]
      have hcancel : x.exp + ((-x.exp).toNat : Int) = 0 := by omega
      rw [hcancel, zpow_zero]
    have hmant : (x.mant : ℚ) ≤ 2 ^ (-x.exp).toNat := by
      calc (x.mant : ℚ) = x.mant * 2 ^ x.exp * 2 ^ (-x.exp).toNat := by
            rw [mul_assoc, hpow, mul_one]
        _ ≤ 1 * 2 ^ (-x.exp).toNat := mul_le_mul_of_nonneg_right hhigh (by positivity)
        _ = 2 ^ (-x.exp).toNat := one_mul _
    exact_mod_cast hmant
  · rw [hzero]
    exact Nat.zero_le _

end Binary64

theorem sizeFactor_pos (n : Nat) :
    ∃ y : Binary64.Finite, sizeFactor n = .finite y ∧ y.neg = false := by
  unfold sizeFactor Binary64.ofNat
  cases hr : Binary64.round false n 1 0 with
  | nan l => exact ⟨_, rfl, rfl⟩
  | infinity s => exact ⟨_, rfl, rfl⟩
  | finite y => exact ⟨y, rfl, Binary64.neg_of_round hr⟩

theorem mul_sizeFactor_truncate_nonneg {r : Binary64} (hr : r.InUnit) {n : Nat} {z : Int}
    (hz : (r.mul (sizeFactor n)).truncate = .ok z) : 0 ≤ z := by
  obtain ⟨x, rfl, hx⟩ := hr.exists_finite
  obtain ⟨y, hy, hyn⟩ := sizeFactor_pos n
  rw [hy] at hz
  simp only [Binary64.mul, Binary64.Finite.mul] at hz
  rcases hx with hneg | hmant
  · refine Binary64.truncate_nonneg ?_ hz
    rw [Binary64.signBit_round, hneg, hyn]
    rfl
  · rw [hmant, Nat.zero_mul, Binary64.round, if_pos rfl] at hz
    exact Binary64.zero_truncate_nonneg hz

theorem position_bounds {r : Binary64} (hr : r.InUnit) {n : Nat} (hn : 0 < n) {i : Int}
    (h : position r n = .ok i) : 0 ≤ i ∧ i < n := by
  obtain ⟨z, hz, hi⟩ := Fault.bind_eq_ok.1 h
  rw [Fault.pure_eq_ok] at hi
  have hz0 := mul_sizeFactor_truncate_nonneg hr hz
  omega

theorem position_succeeds {r : Binary64} (hr : r.InUnit) (n : Nat) :
    ∃ i, position r n = .ok i := by
  obtain ⟨x, rfl, -⟩ := hr.exists_finite
  obtain ⟨y, hy, -⟩ := sizeFactor_pos n
  have hexp := hr.exp_le
  obtain ⟨hmant, -, hyexp, -⟩ := y.canonical
  have hfactor : y.mant ≤ 0x1fffffffffffff := by omega
  have hproduct : x.mant * y.mant ≤ 0x1fffffffffffff * 2 ^ (971 - (x.exp + y.exp)).toNat := by
    calc x.mant * y.mant ≤ 2 ^ (-x.exp).toNat * 0x1fffffffffffff :=
          Nat.mul_le_mul hr.mant_le hfactor
      _ = 0x1fffffffffffff * 2 ^ (-x.exp).toNat := Nat.mul_comm _ _
      _ ≤ 0x1fffffffffffff * 2 ^ (971 - (x.exp + y.exp)).toNat :=
          Nat.mul_le_mul_left _ (Nat.pow_le_pow_right two_pos (by omega))
  have hfinite : ∃ w, Binary64.round (x.neg != y.neg) (x.mant * y.mant) 1 (x.exp + y.exp) =
      .finite w := Binary64.round_isFinite_of_le _ (by omega) hproduct
  obtain ⟨w, hw⟩ := hfinite
  rw [position, hy, Binary64.mul, Binary64.Finite.mul, hw]
  exact ⟨_, rfl⟩

variable {α : Type}

theorem place_natCast {n i : Nat} (h : i < n) : place n i = .ok i := by
  have hi : ¬(i : Int) < 0 := by omega
  simp [place, hi, h]

theorem nth_natCast {xs : List α} {i : Nat} {a : α} (h : xs[i]? = some a) :
    nth xs i = .ok a := by
  obtain ⟨hi, -⟩ := List.getElem?_eq_some_iff.1 h
  rw [nth, place_natCast hi]
  simp only [bind, Except.bind, h]
  rfl

theorem exists_nth {xs : List α} {i : Int} (hlow : 0 ≤ i) (hhigh : i < xs.length) :
    ∃ a, nth xs i = .ok a := by
  obtain ⟨k, rfl⟩ := Int.eq_ofNat_of_zero_le hlow
  exact ⟨_, nth_natCast (List.getElem?_eq_getElem (Int.ofNat_lt.1 hhigh))⟩

theorem mem_of_nth {xs : List α} {i : Int} {a : α} (h : nth xs i = .ok a) : a ∈ xs := by
  obtain ⟨k, -, hk⟩ := Fault.bind_eq_ok.1 h
  split at hk
  · next b hb =>
    rw [Fault.pure_eq_ok] at hk
    exact hk ▸ List.mem_of_getElem? hb
  · cases hk

end MinConflicts
