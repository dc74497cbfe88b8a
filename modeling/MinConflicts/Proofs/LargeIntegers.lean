import MinConflicts.Proofs.ExactOrder
import MinConflicts.Proofs.Positions
import MinConflicts.Proofs.Quotients

/-!
# Integers beyond all double-precision numbers

An integer has a nearest double-precision number while it lies less than half a unit above the
greatest one. At that point the tie goes to the next power of 2, which is out of range, so from
there on an integer cannot be turned into a double-precision number. One that can be stays on its
side of 0 and of 1.
-/
namespace MinConflicts

namespace Binary64

/-- The least natural number that is too great: half a unit above the greatest number. -/
def overflowFrom : Nat := 0x3fffffffffffff * 2 ^ 970

theorem overflowFrom_le_two_pow {k : Nat} (hk : 1024 ≤ k) : overflowFrom ≤ 2 ^ k := by
  obtain ⟨j, rfl⟩ : ∃ j, k = 54 + j + 970 := ⟨k - 1024, by omega⟩
  have hj : 2 ^ 54 ≤ 2 ^ (54 + j) := Nat.pow_le_pow_right two_pos (Nat.le_add_right 54 j)
  rw [overflowFrom, pow_add]
  exact Nat.mul_le_mul_right _ ((by norm_num : 0x3fffffffffffff ≤ 2 ^ 54).trans hj)

variable {neg : Bool} {mant : Nat} {exp : Int} {z : Int} {x : Finite}

theorem pack_isFinite_iff (hfull : 2 ^ 52 ≤ mant) (hmant : mant ≤ 2 ^ 53) (hlow : -1074 ≤ exp) :
    (∃ x, pack neg mant exp = .finite x) ↔ exp ≤ 970 ∨ exp = 971 ∧ mant < 2 ^ 53 := by
  unfold pack
  split_ifs with hcanonical hcarry
  · unfold Canonical at hcanonical
    refine iff_of_true ⟨_, rfl⟩ ?_
    omega
  · unfold Canonical at hcarry
    refine iff_of_true ⟨_, rfl⟩ ?_
    omega
  · unfold Canonical at hcanonical hcarry
    refine iff_of_false (by simp) ?_
    omega

theorem magnitude_pack (h : pack neg mant exp = .finite x) : x.magnitude = mant * 2 ^ exp := by
  unfold pack at h
  split_ifs at h with hcanonical hcarry
  · cases h
    rfl
  · have hparts : x.mant = 0x10000000000000 ∧ x.exp = exp + 1 := by
      cases h
      exact ⟨rfl, rfl⟩
    rw [Finite.magnitude, hparts.1, hparts.2, hcarry.1, zpow_add_one₀ two_ne_zero]
    push_cast
    ring

theorem ofInt_eq_pack (hz : z ≠ 0) : ofInt z =
    pack (z < 0) (mantissaOn z.natAbs 0 (z.natAbs.log2 - 52)) (z.natAbs.log2 - 52) := by
  have hgrid : gridExponent z.natAbs 1 0 = z.natAbs.log2 - 52 := by
    rw [gridExponent_one (by omega)]
    omega
  rw [ofInt, round_eq_pack (by omega), hgrid]

theorem two_pow_le_mantissaOn {n : Nat} (hn : n ≠ 0) : 2 ^ 52 ≤ mantissaOn n 0 (n.log2 - 52) :=
  le_mantissaOn hn (by omega)

theorem mantissaOn_lt_iff {n : Nat} (k : Nat) :
    mantissaOn n 0 (k + 1 : Nat) < 2 ^ 53 ↔ n < 0x3fffffffffffff * 2 ^ k := by
  have hmant : mantissaOn n 0 (k + 1 : Nat) = halfEven n (2 ^ (k + 1)) := by
    have hup : (0 - ((k + 1 : Nat) : Int)).toNat = 0 := by omega
    have hdown : (((k + 1 : Nat) : Int) - 0).toNat = k + 1 := by omega
    rw [mantissaOn, scaleUp_eq, scaleUp_eq, hup, hdown, Nat.shiftLeft_zero, Nat.shiftLeft_eq,
      Nat.one_mul]
  rw [hmant, ← not_le, even_le_halfEven_iff (Nat.two_pow_pos _) (by norm_num), pow_succ']
  omega

theorem ofInt_isFinite_iff : (∃ x, ofInt z = .finite x) ↔ z.natAbs < overflowFrom := by
  by_cases hz : z = 0
  · refine iff_of_true ⟨_, by rw [hz]; rfl⟩ ?_
    rw [hz, overflowFrom, Int.natAbs_zero]
    positivity
  · have hn : z.natAbs ≠ 0 := by omega
    have hlog (k : Nat) : z.natAbs.log2 < k + 970 ↔ z.natAbs < 2 ^ k * 2 ^ 970 := by
      rw [Nat.log2_lt hn, ← pow_add]
    have hbelow := hlog 53
    have habove := hlog 54
    have hgreatest : z.natAbs.log2 = 1023 →
        (mantissaOn z.natAbs 0 (z.natAbs.log2 - 52) < 2 ^ 53 ↔ z.natAbs < overflowFrom) := by
      intro h
      have hgrid : (z.natAbs.log2 : Int) - 52 = (970 + 1 : Nat) := by omega
      rw [hgrid]
      exact mantissaOn_lt_iff 970
    rw [ofInt_eq_pack hz, pack_isFinite_iff (two_pow_le_mantissaOn hn)
      (mantissaOn_le (by omega)) (by omega)]
    rw [overflowFrom] at hgreatest ⊢
    generalize (2 : Nat) ^ 970 = unit at *
    omega

theorem one_le_of_ofInt (hz : 1 ≤ z) (h : ofInt z = .finite x) : 1 ≤ x.toRat := by
  have hn : z.natAbs ≠ 0 := by omega
  have hneg : x.neg = false := by
    rw [neg_of_round h]
    exact decide_eq_false (by omega)
  rw [ofInt_eq_pack (by omega)] at h
  rw [Finite.toRat_of_pos hneg, magnitude_pack h]
  calc (1 : ℚ) ≤ 2 ^ (z.natAbs.log2 : Int) := one_le_zpow₀ one_le_two (Int.natCast_nonneg _)
    _ = 2 ^ (52 : Int) * 2 ^ ((z.natAbs.log2 : Int) - 52) := by
        rw [← zpow_add₀ two_ne_zero]
        congr 1
        ring
    _ ≤ mantissaOn z.natAbs 0 (z.natAbs.log2 - 52) * 2 ^ ((z.natAbs.log2 : Int) - 52) := by
        refine mul_le_mul_of_nonneg_right ?_ (two_zpow_pos _).le
        exact_mod_cast two_pow_le_mantissaOn hn

theorem toRat_nonpos_of_ofInt (hz : z ≤ 0) (h : ofInt z = .finite x) : x.toRat ≤ 0 := by
  rcases hz.lt_or_eq with hlt | rfl
  · have hneg : x.neg = true := by
      rw [neg_of_round h]
      exact decide_eq_true hlt
    rw [Finite.toRat_of_neg hneg, neg_nonpos]
    exact x.magnitude_nonneg
  · cases h
    simp [Finite.toRat, Finite.signed]

end Binary64

namespace Number

theorem toReal_int_of_lt {z : Int} (h : z.natAbs < Binary64.overflowFrom) :
    ∃ x, Binary64.ofInt z = .finite x ∧ (Number.int z).toReal = .ok (.finite x) := by
  obtain ⟨x, hx⟩ := Binary64.ofInt_isFinite_iff.2 h
  exact ⟨x, hx, by simp only [toReal, hx]⟩

theorem toReal_int_of_le {z : Int} (h : Binary64.overflowFrom ≤ z.natAbs) :
    (Number.int z).toReal = .error .overflow := by
  cases hreal : Binary64.ofInt z with
  | finite x => exact absurd (Binary64.ofInt_isFinite_iff.1 ⟨x, hreal⟩) (not_lt.2 h)
  | infinity _ | nan _ => simp only [toReal, hreal]

end Number

namespace Value

def isOversized : Value → Bool
  | .int z => decide (Binary64.overflowFrom ≤ z.natAbs)
  | _ => false

theorem isOversized_int {z : Int} :
    (Value.int z).isOversized = true ↔ Binary64.overflowFrom ≤ z.natAbs := by
  simp only [isOversized, decide_eq_true_eq]

theorem isOversized_two_pow {k : Nat} (hk : 1024 ≤ k) :
    (Value.int (2 ^ k)).isOversized = true := by
  rw [isOversized_int, Int.natAbs_pow]
  exact Binary64.overflowFrom_le_two_pow hk

end Value

end MinConflicts
