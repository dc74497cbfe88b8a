import Mathlib.Algebra.Order.Ring.Nat
import Mathlib.Tactic.NormNum
import Mathlib.Tactic.SplitIfs
import MinConflicts.Binary64.Arith

/-!
# Rounded numbers are finite

A scaled natural number is rounded on a grid that leaves it 53 bits, or fewer on the finest grid.
So its mantissa never passes `2 ^ 53`, and the result is infinite only where its exponent lies
beyond all grids. On a grid that is finer than the number's own unit nothing is lost, and on a
coarser one the full mantissa stays: a number that is not 0 is not rounded to 0.
-/
namespace MinConflicts.Binary64

theorem halfEven_le {num den b : Nat} (hden : 0 < den) (h : num ≤ b * den) :
    halfEven num den ≤ b := by
  have hdiv := Nat.div_add_mod num den
  have hq : num / den ≤ b := Nat.div_le_of_le_mul (Nat.mul_comm b den ▸ h)
  unfold halfEven
  dsimp only
  split_ifs with hr
  · exact hq
  · -- a quotient of `b` leaves no remainder to round up
    rcases hq.lt_or_eq with hlt | heq
    · exact hlt
    · rw [heq, Nat.mul_comm] at hdiv
      omega

theorem le_halfEven {num den b : Nat} (hden : 0 < den) (h : b * den ≤ num) :
    b ≤ halfEven num den := by
  have hq : b ≤ num / den := (Nat.le_div_iff_mul_le hden).2 h
  unfold halfEven
  dsimp only
  split_ifs
  · exact hq
  · exact hq.trans (Nat.le_succ _)

theorem magnitude_one {num : Nat} (hnum : num ≠ 0) : magnitude num 1 = num.log2 := by
  have hlog : (1 : Nat).log2 = 0 := by decide
  have hpow := Nat.log2_self_le hnum
  have hlt : ¬num < 2 ^ num.log2 := by omega
  simp [magnitude, hlog, scaleUp_eq, Nat.shiftLeft_eq, hlt]

theorem gridExponent_one {num : Nat} (hnum : num ≠ 0) (e : Int) :
    gridExponent num 1 e = max (-1074) (num.log2 + e - 52) := by
  rw [gridExponent, magnitude_one hnum]

def mantissaOn (num : Nat) (e g : Int) : Nat :=
  halfEven (scaleUp num (e - g).toNat) (scaleUp 1 (g - e).toNat)

theorem round_eq_pack {num : Nat} (hnum : num ≠ 0) (neg : Bool) (e : Int) :
    round neg num 1 e =
      pack neg (mantissaOn num e (gridExponent num 1 e)) (gridExponent num 1 e) := by
  rw [round, if_neg hnum, mantissaOn]

variable {num : Nat} {e g : Int}

theorem mantissaOn_le (hg : num.log2 + e - 52 ≤ g) : mantissaOn num e g ≤ 2 ^ 53 := by
  apply halfEven_le
  · simp [scaleUp_eq, Nat.shiftLeft_eq]
  · rw [scaleUp_eq, scaleUp_eq, Nat.shiftLeft_eq, Nat.shiftLeft_eq, Nat.one_mul, ← Nat.pow_add]
    calc num * 2 ^ (e - g).toNat ≤ 2 ^ (num.log2 + 1) * 2 ^ (e - g).toNat :=
          Nat.mul_le_mul_right _ Nat.lt_log2_self.le
      _ = 2 ^ (num.log2 + 1 + (e - g).toNat) := (Nat.pow_add _ _ _).symm
      _ ≤ 2 ^ (53 + (g - e).toNat) := Nat.pow_le_pow_right two_pos (by omega)

theorem le_mantissaOn (hnum : num ≠ 0) {k : Nat} (hg : g + k ≤ num.log2 + e) :
    2 ^ k ≤ mantissaOn num e g := by
  apply le_halfEven
  · simp [scaleUp_eq, Nat.shiftLeft_eq]
  · rw [scaleUp_eq, scaleUp_eq, Nat.shiftLeft_eq, Nat.shiftLeft_eq, Nat.one_mul, ← Nat.pow_add]
    calc 2 ^ (k + (g - e).toNat) ≤ 2 ^ (num.log2 + (e - g).toNat) :=
          Nat.pow_le_pow_right two_pos (by omega)
      _ = 2 ^ num.log2 * 2 ^ (e - g).toNat := Nat.pow_add _ _ _
      _ ≤ num * 2 ^ (e - g).toNat := Nat.mul_le_mul_right _ (Nat.log2_self_le hnum)

theorem pack_finite {mant : Nat} {exp : Int} (neg : Bool) (hmant : mant ≤ 2 ^ 53)
    (hfull : 2 ^ 52 ≤ mant ∨ exp = -1074) (hlow : -1074 ≤ exp) (hhigh : exp ≤ 970) :
    ∃ x, pack neg mant exp = .finite x ∧ x.exp ≤ exp + 1 := by
  unfold pack
  by_cases hcanonical : Canonical mant exp
  · rw [dif_pos hcanonical]
    exact ⟨_, rfl, by simp⟩
  · rw [dif_neg hcanonical]
    have hcarry : mant = 0x20000000000000 ∧ Canonical 0x10000000000000 (exp + 1) := by
      unfold Canonical at hcanonical ⊢
      omega
    rw [dif_pos hcarry]
    exact ⟨_, rfl, le_rfl⟩

theorem round_finite (hnum : num ≠ 0) (neg : Bool) (h : num.log2 + e ≤ 1022) :
    ∃ x, round neg num 1 e = .finite x ∧ x.exp ≤ max (-1074) (num.log2 + e - 52) + 1 := by
  rw [round_eq_pack hnum, gridExponent_one hnum]
  apply pack_finite
  · exact mantissaOn_le (le_max_right _ _)
  · by_cases hfinest : max (-1074) ((num.log2 : Int) + e - 52) = -1074
    · exact .inr hfinest
    · exact .inl (le_mantissaOn hnum (by omega))
  · exact le_max_left _ _
  · omega

theorem round_isZero (hnum : num ≠ 0) (neg : Bool) (h : -1074 ≤ e) :
    (round neg num 1 e).isZero = false := by
  have hpos : 2 ^ 0 ≤ mantissaOn num e (gridExponent num 1 e) := by
    rw [gridExponent_one hnum]
    exact le_mantissaOn hnum (by omega)
  rw [round_eq_pack hnum, pack]
  split_ifs
  · simp only [isZero, beq_eq_false_iff_ne]
    omega
  · rfl
  · rfl

theorem round_isFinite (neg : Bool) (h : num.log2 + e ≤ 1022) :
    ∃ x, round neg num 1 e = .finite x := by
  by_cases hnum : num = 0
  · rw [round, if_pos hnum]
    exact ⟨_, rfl⟩
  · obtain ⟨x, hx, -⟩ := round_finite hnum neg h
    exact ⟨x, hx⟩

theorem Finite.add_isZero {x y : Finite} (hneg : x.neg = y.neg) (hx : x.mant ≠ 0) :
    (x.add y).isZero = false := by
  have hxlow := x.canonical.2.1
  have hylow := y.canonical.2.1
  have hscaled : scaleUp x.mant (x.exp - min x.exp y.exp).toNat ≠ 0 := by
    simp [scaleUp_eq, Nat.shiftLeft_eq, hx]
  simp only [Finite.add, hneg, if_true]
  exact round_isZero (by omega) _ (by omega)

theorem log2_le_of_lt {n k : Nat} (h : n < 2 ^ (k + 1)) : n.log2 ≤ k := by
  by_cases hn : n = 0
  · simp [hn]
  · exact Nat.le_of_lt_succ ((Nat.log2_lt hn).2 h)

theorem ofInt_isFinite {z : Int} (h : z.natAbs < 2 ^ 128) : ∃ x, ofInt z = .finite x := by
  have hlog := log2_le_of_lt (k := 127) h
  exact round_isFinite _ (by omega)

theorem round_isFinite_of_le (neg : Bool) (he : e ≤ 971)
    (h : num ≤ 0x1fffffffffffff * 2 ^ (971 - e).toNat) : ∃ x, round neg num 1 e = .finite x := by
  by_cases hsmall : num.log2 + e ≤ 1022
  · exact round_isFinite neg hsmall
  · have hnum : num ≠ 0 := by
      rintro rfl
      have hlog : (0 : Nat).log2 = 0 := by decide
      omega
    have hlog : num.log2 ≤ 52 + (971 - e).toNat := by
      apply log2_le_of_lt
      calc num ≤ 0x1fffffffffffff * 2 ^ (971 - e).toNat := h
        _ < 2 ^ 53 * 2 ^ (971 - e).toNat :=
          Nat.mul_lt_mul_of_pos_right (by norm_num) (Nat.two_pow_pos _)
        _ = 2 ^ (53 + (971 - e).toNat) := (Nat.pow_add _ _ _).symm
        _ = 2 ^ (52 + (971 - e).toNat + 1) := congrArg (2 ^ ·) (by omega)
    have hgrid : gridExponent num 1 e = 971 := by
      rw [gridExponent_one hnum]
      omega
    have hmost : mantissaOn num e 971 ≤ 0x1fffffffffffff := by
      have hexact : (e - 971).toNat = 0 := by omega
      apply halfEven_le
      · simp [scaleUp_eq, Nat.shiftLeft_eq]
      · rw [scaleUp_eq, scaleUp_eq, hexact, Nat.shiftLeft_zero, Nat.shiftLeft_eq, Nat.one_mul]
        exact h
    have hleast : 2 ^ 52 ≤ mantissaOn num e 971 := le_mantissaOn hnum (by omega)
    have hcanonical : Canonical (mantissaOn num e 971) 971 := by
      unfold Canonical
      omega
    rw [round_eq_pack hnum, hgrid, pack, dif_pos hcanonical]
    exact ⟨_, rfl⟩

end MinConflicts.Binary64
