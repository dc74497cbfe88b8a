import Mathlib.Algebra.Order.Field.Power
import Mathlib.Data.Rat.Cast.Order
import Mathlib.Tactic.Linarith
import Mathlib.Tactic.Positivity
import Mathlib.Tactic.Ring
import MinConflicts.Proofs.Rounding

/-!
# Integer parts of rounded quotients

A quotient of naturals is rounded on the grid that leaves it 53 bits. Where the quotient is below
`2 ^ 53` this grid holds all integers, so rounding never passes one: the integer part is the exact
one, unless the quotient is so close below the next integer that it is rounded up to it. For a
quotient below `2 ^ 52` a tie goes to that integer, as its mantissa is even. A numerator below
`2 ^ 53` keeps the quotient too far from the next integer.
-/
namespace MinConflicts.Binary64

variable {num den b : Nat}

theorem mul_le_of_le_halfEven (hden : 0 < den) (h : b ≤ halfEven num den) :
    2 * (b * den) ≤ 2 * num + den := by
  have hdiv := Nat.div_add_mod' num den
  have hmod := Nat.mod_lt num hden
  have hmul : b * den ≤ halfEven num den * den := Nat.mul_le_mul_right _ h
  unfold halfEven at hmul
  dsimp only at hmul
  split_ifs at hmul with hr
  · omega
  · rw [Nat.succ_mul] at hmul
    omega

theorem even_le_halfEven_iff (hden : 0 < den) (heven : b % 2 = 0) :
    b ≤ halfEven num den ↔ 2 * (b * den) ≤ 2 * num + den := by
  refine ⟨mul_le_of_le_halfEven hden, fun h => ?_⟩
  have hdiv := Nat.div_add_mod' num den
  have hmod := Nat.mod_lt num hden
  rcases Nat.lt_trichotomy b (num / den + 1) with hlt | heq | hgt
  · -- the ratio has passed the number already
    exact le_halfEven hden ((Nat.le_div_iff_mul_le hden).1 (Nat.le_of_lt_succ hlt))
  · -- the number is next, so the quotient is odd and the remainder decides
    have hnext : b * den = num / den * den + den := by rw [heq, Nat.succ_mul]
    have hup : ¬(2 * (num % den) < den ∨ 2 * (num % den) = den ∧ num / den % 2 = 0) := by omega
    unfold halfEven
    dsimp only
    rw [if_neg hup]
    exact heq.le
  · have hfar : (num / den + 2) * den ≤ b * den := Nat.mul_le_mul_right _ hgt
    rw [Nat.add_mul] at hfar
    omega

theorem scaled_le_iff (a b : Nat) (g : Int) :
    a * 2 ^ g.toNat ≤ b * 2 ^ (-g).toNat ↔ (a : ℚ) * 2 ^ g ≤ b := by
  have hpos : (0 : ℚ) < 2 ^ (-g).toNat := by positivity
  have hscale : (2 : ℚ) ^ g.toNat = 2 ^ g * 2 ^ (-g).toNat := by
    rw [← zpow_natCast, ← zpow_natCast, ← zpow_add₀ two_ne_zero]
    congr 1
    omega
  rw [← Nat.cast_le (α := ℚ)]
  push_cast
  rw [hscale, ← mul_assoc]
  exact mul_le_mul_iff_of_pos_right hpos

theorem scaled_lt_iff (a b : Nat) (g : Int) :
    b * 2 ^ (-g).toNat < a * 2 ^ g.toNat ↔ (b : ℚ) < a * 2 ^ g := by
  rw [← not_le, scaled_le_iff, not_le]

variable {n d : Nat}

theorem log2_bounds (hn : n ≠ 0) :
    (2 : ℚ) ^ (n.log2 : Int) ≤ n ∧ (n : ℚ) < 2 ^ (n.log2 + 1 : Int) := by
  constructor
  · rw [zpow_natCast]
    exact_mod_cast Nat.log2_self_le hn
  · have hlt := Nat.lt_log2_self (n := n)
    rw [← Nat.cast_succ, zpow_natCast]
    exact_mod_cast hlt

theorem magnitude_bounds (hn : n ≠ 0) (hd : d ≠ 0) :
    (d : ℚ) * 2 ^ magnitude n d ≤ n ∧ (n : ℚ) < d * 2 ^ (magnitude n d + 1) := by
  obtain ⟨hnlow, hnhigh⟩ := log2_bounds hn
  obtain ⟨hdlow, hdhigh⟩ := log2_bounds hd
  have hscale : ∀ e : Int, scaleUp n (-e).toNat < scaleUp d e.toNat ↔ (n : ℚ) < d * 2 ^ e := by
    intro e
    rw [scaleUp_eq, scaleUp_eq, Nat.shiftLeft_eq, Nat.shiftLeft_eq, scaled_lt_iff]
  unfold magnitude
  simp only [hscale]
  split_ifs with h
  · refine ⟨?_, by rwa [sub_add_cancel]⟩
    calc (d : ℚ) * 2 ^ ((n.log2 : Int) - d.log2 - 1)
        ≤ 2 ^ (d.log2 + 1 : Int) * 2 ^ ((n.log2 : Int) - d.log2 - 1) :=
          mul_le_mul_of_nonneg_right hdhigh.le (by positivity)
      _ = 2 ^ (n.log2 : Int) := by rw [← zpow_add₀ two_ne_zero]; congr 1; ring
      _ ≤ n := hnlow
  · refine ⟨not_lt.1 h, ?_⟩
    calc (n : ℚ) < 2 ^ (n.log2 + 1 : Int) := hnhigh
      _ = 2 ^ (d.log2 : Int) * 2 ^ ((n.log2 : Int) - d.log2 + 1) := by
          rw [← zpow_add₀ two_ne_zero]; congr 1; ring
      _ ≤ d * 2 ^ ((n.log2 : Int) - d.log2 + 1) :=
          mul_le_mul_of_nonneg_right hdlow (by positivity)

theorem magnitude_lt_of_div_lt {k : Nat} (hn : n ≠ 0) (hd : d ≠ 0) (h : n / d < 2 ^ k) :
    magnitude n d < k := by
  by_contra hge
  have hmul : 2 ^ k * d ≤ n := by
    have hpow : (2 : ℚ) ^ k ≤ 2 ^ magnitude n d := by
      rw [← zpow_natCast]
      exact zpow_le_zpow_right₀ one_le_two (not_lt.1 hge)
    have hscaled : (2 : ℚ) ^ k * d ≤ n := by
      calc (2 : ℚ) ^ k * d = d * 2 ^ k := mul_comm _ _
        _ ≤ d * 2 ^ magnitude n d := mul_le_mul_of_nonneg_left hpow (Nat.cast_nonneg _)
        _ ≤ n := (magnitude_bounds hn hd).1
    exact_mod_cast hscaled
  exact absurd ((Nat.le_div_iff_mul_le (Nat.pos_of_ne_zero hd)).2 hmul) (not_le.2 h)

theorem abs_magnitude_le (hn : n < 2 ^ 64) (hd : d < 2 ^ 64) :
    -64 ≤ magnitude n d ∧ magnitude n d ≤ 64 := by
  have hnlog := log2_le_of_lt (k := 63) hn
  have hdlog := log2_le_of_lt (k := 63) hd
  unfold magnitude
  dsimp only
  split_ifs <;> omega

def lastBit (n d : Nat) : Int := magnitude n d - 52

def quotientMantissa (n d : Nat) : Nat :=
  halfEven (n * 2 ^ (-lastBit n d).toNat) (d * 2 ^ (lastBit n d).toNat)

theorem ofRatio_eq_pack (hn : n ≠ 0) (hgrid : -1074 ≤ lastBit n d) (neg : Bool) :
    ofRatio neg n d = pack neg (quotientMantissa n d) (lastBit n d) := by
  have hexp : gridExponent n d 0 = lastBit n d := by
    rw [gridExponent, add_zero]
    exact max_eq_right hgrid
  rw [ofRatio, round, if_neg hn, hexp]
  dsimp only
  rw [scaleUp_eq, scaleUp_eq, Nat.shiftLeft_eq, Nat.shiftLeft_eq, zero_sub, sub_zero,
    quotientMantissa]

theorem full_numerator (hn : n ≠ 0) (hd : d ≠ 0) :
    2 ^ 52 * (d * 2 ^ (lastBit n d).toNat) ≤ n * 2 ^ (-lastBit n d).toNat := by
  rw [← Nat.mul_assoc, scaled_le_iff]
  calc ((2 ^ 52 * d : Nat) : ℚ) * 2 ^ lastBit n d = d * (2 ^ lastBit n d * 2 ^ (52 : Int)) := by
        push_cast; ring
    _ = d * 2 ^ magnitude n d := by
        rw [← zpow_add₀ two_ne_zero, lastBit, sub_add_cancel]
    _ ≤ n := (magnitude_bounds hn hd).1

theorem numerator_lt (hn : n ≠ 0) (hd : d ≠ 0) :
    n * 2 ^ (-lastBit n d).toNat < 2 ^ 53 * (d * 2 ^ (lastBit n d).toNat) := by
  rw [← Nat.mul_assoc, scaled_lt_iff]
  calc (n : ℚ) < d * 2 ^ (magnitude n d + 1) := (magnitude_bounds hn hd).2
    _ = d * (2 ^ lastBit n d * 2 ^ (53 : Int)) := by
        rw [← zpow_add₀ two_ne_zero, lastBit]; congr 2; ring
    _ = ((2 ^ 53 * d : Nat) : ℚ) * 2 ^ lastBit n d := by push_cast; ring

theorem ofRatio_isFinite (hn : n < 2 ^ 64) (hd : d ≠ 0) (hd64 : d < 2 ^ 64) (neg : Bool) :
    ∃ x, ofRatio neg n d = .finite x := by
  by_cases hzero : n = 0
  · rw [ofRatio, round, if_pos hzero]
    exact ⟨_, rfl⟩
  · obtain ⟨hlow, hhigh⟩ := abs_magnitude_le hn hd64
    have hden : 0 < d * 2 ^ (lastBit n d).toNat := by positivity
    have hleast : 2 ^ 52 ≤ quotientMantissa n d := le_halfEven hden (full_numerator hzero hd)
    have hmost : quotientMantissa n d ≤ 2 ^ 53 := halfEven_le hden (numerator_lt hzero hd).le
    have hbit : -1074 ≤ lastBit n d ∧ lastBit n d ≤ 970 := by
      unfold lastBit
      omega
    obtain ⟨x, hx, -⟩ := pack_finite neg hmost (.inl hleast) hbit.1 hbit.2
    exact ⟨x, (ofRatio_eq_pack hzero hbit.1 neg).trans hx⟩

theorem Finite.floor_of_pos {x : Finite} (h : x.neg = false) :
    x.floor = (x.mant * 2 ^ x.exp.toNat / 2 ^ (-x.exp).toNat : Nat) := by
  rw [floor, signed, h, if_neg Bool.false_ne_true, Int.shiftLeft_eq, Int.shiftRight_eq_div_pow]
  push_cast
  rfl

theorem floor_pack {mant : Nat} {g : Int} {x : Finite} (h : pack false mant g = .finite x) :
    x.floor = (mant * 2 ^ g.toNat / 2 ^ (-g).toNat : Nat) := by
  unfold pack at h
  split_ifs at h with hcanonical hcarry
  · cases h
    exact Finite.floor_of_pos rfl
  · have hmant := hcarry.1
    cases h
    rw [Finite.floor_of_pos rfl]
    dsimp only
    rw [hmant]
    by_cases hg : 0 ≤ g
    · have hup : (g + 1).toNat = g.toNat + 1 := by omega
      have hdown : (-(g + 1)).toNat = 0 ∧ (-g).toNat = 0 := by omega
      rw [hup, hdown.1, hdown.2, Nat.pow_succ]
      congr 2
      omega
    · have hup : (g + 1).toNat = 0 ∧ g.toNat = 0 := by omega
      have hdown : (-g).toNat = (-(g + 1)).toNat + 1 := by omega
      rw [hup.1, hup.2, hdown, Nat.pow_succ]
      exact congrArg Nat.cast (Nat.mul_div_mul_right (0x10000000000000 * 2 ^ 0) _ two_pos).symm

/-- Whether a quotient lies at most one half of its last bit below the next integer. -/
def RoundsUp (n d : Nat) : Prop :=
  2 * ((d - n % d) * 2 ^ (-lastBit n d).toNat) ≤ d

instance (n d : Nat) : Decidable (RoundsUp n d) := inferInstanceAs (Decidable (_ ≤ _))

theorem roundsUp_iff (hd : d ≠ 0) :
    RoundsUp n d ↔ 2 * ((n / d + 1) * 2 ^ (-lastBit n d).toNat * d) ≤
      2 * (n * 2 ^ (-lastBit n d).toNat) + d := by
  have hnext : (n / d + 1) * d = n + (d - n % d) := by
    have hdiv := Nat.div_add_mod' n d
    have hmod := Nat.mod_lt n (Nat.pos_of_ne_zero hd)
    rw [Nat.succ_mul]
    omega
  rw [RoundsUp, Nat.mul_right_comm, hnext, Nat.add_mul]
  omega

theorem not_roundsUp_zero (hd : d ≠ 0) : ¬RoundsUp 0 d := by
  have hpow := Nat.one_le_two_pow (n := (-lastBit 0 d).toNat)
  have hmul : d * 1 ≤ d * 2 ^ (-lastBit 0 d).toNat := Nat.mul_le_mul_left _ hpow
  rw [RoundsUp, Nat.zero_mod, Nat.sub_zero]
  omega

theorem not_roundsUp_of_lt (hn : n < 2 ^ 53) (hd : d ≠ 0) : ¬RoundsUp n d := by
  by_cases hzero : n = 0
  · rw [hzero]
    exact not_roundsUp_zero hd
  · intro hup
    have hbit : (lastBit n d).toNat = 0 := by
      have hsmall := magnitude_lt_of_div_lt hzero hd ((Nat.div_le_self n d).trans_lt hn)
      unfold lastBit
      omega
    have hfull := full_numerator hzero hd
    rw [hbit, Nat.pow_zero, Nat.mul_one] at hfull
    -- the next multiple of `d` is one unit away at least, which is more than half of the last bit
    have hunit : 1 * 2 ^ (-lastBit n d).toNat ≤ (d - n % d) * 2 ^ (-lastBit n d).toNat := by
      have hmod := Nat.mod_lt n (Nat.pos_of_ne_zero hd)
      exact Nat.mul_le_mul_right _ (by omega)
    unfold RoundsUp at hup
    have hmul : n * 2 ^ (-lastBit n d).toNat < 2 ^ 53 * 2 ^ (-lastBit n d).toNat :=
      Nat.mul_lt_mul_of_pos_right hn (Nat.two_pow_pos _)
    omega

theorem quotientMantissa_of_le (hbit : lastBit n d ≤ 0) :
    quotientMantissa n d = halfEven (n * 2 ^ (-lastBit n d).toNat) d := by
  rw [quotientMantissa, Int.toNat_eq_zero.2 hbit, Nat.pow_zero, Nat.mul_one]

theorem quotientMantissa_bounds (hd : d ≠ 0) (hbit : lastBit n d ≤ 0) :
    n / d * 2 ^ (-lastBit n d).toNat ≤ quotientMantissa n d ∧
      quotientMantissa n d ≤ (n / d + 1) * 2 ^ (-lastBit n d).toNat := by
  have hpos : 0 < d := Nat.pos_of_ne_zero hd
  rw [quotientMantissa_of_le hbit]
  constructor
  · apply le_halfEven hpos
    rw [Nat.mul_right_comm]
    exact Nat.mul_le_mul_right _ (Nat.div_mul_le_self n d)
  · apply halfEven_le hpos
    rw [Nat.mul_right_comm, Nat.mul_comm _ d]
    exact Nat.mul_le_mul_right _ (Nat.lt_mul_div_succ n hpos).le

/-- On a grid that holds all integers, the integer part of a rounded quotient is the next one
exactly where the quotient rounds up to it. A tie on the grid of the integers themselves is left
out: it goes to the even one. -/
theorem quotientMantissa_div (hd : d ≠ 0) (hbit : lastBit n d ≤ 0)
    (htie : lastBit n d = 0 → ¬RoundsUp n d) :
    quotientMantissa n d / 2 ^ (-lastBit n d).toNat =
      if RoundsUp n d then n / d + 1 else n / d := by
  have hpos : 0 < d := Nat.pos_of_ne_zero hd
  obtain ⟨hlow, hhigh⟩ := quotientMantissa_bounds hd hbit
  split_ifs with hup
  · have heven : (n / d + 1) * 2 ^ (-lastBit n d).toNat % 2 = 0 := by
      have hfine : (-lastBit n d).toNat = (-lastBit n d).toNat - 1 + 1 := by
        have hnonzero : lastBit n d ≠ 0 := fun hzero => htie hzero hup
        omega
      rw [hfine, Nat.pow_succ, ← Nat.mul_assoc, Nat.mul_mod_left]
    apply Nat.div_eq_of_lt_le
    · rw [quotientMantissa_of_le hbit]
      exact (even_le_halfEven_iff hpos heven).2 ((roundsUp_iff hd).1 hup)
    · exact hhigh.trans_lt (Nat.mul_lt_mul_of_pos_right (Nat.lt_succ_self _) (Nat.two_pow_pos _))
  · apply Nat.div_eq_of_lt_le hlow
    by_contra hreached
    rw [quotientMantissa_of_le hbit, not_lt] at hreached
    exact hup ((roundsUp_iff hd).2 (mul_le_of_le_halfEven hpos hreached))

theorem floor_ofRatio {x : Finite} (hn : n ≠ 0) (hd : d ≠ 0)
    (hbit : -1074 ≤ lastBit n d ∧ lastBit n d ≤ 0) (htie : lastBit n d = 0 → ¬RoundsUp n d)
    (h : ofRatio false n d = .finite x) :
    x.floor = (if RoundsUp n d then n / d + 1 else n / d : Nat) := by
  rw [ofRatio_eq_pack hn hbit.1] at h
  rw [floor_pack h, Int.toNat_eq_zero.2 hbit.2, Nat.pow_zero, Nat.mul_one,
    quotientMantissa_div hd hbit.2 htie]

theorem floor_ofRatio_zero {x : Finite} (h : ofRatio false 0 d = .finite x) : x.floor = 0 := by
  cases h
  decide

theorem floor_ofRatio_of_div_lt {x : Finite} (hn : n < 2 ^ 64) (hd : d ≠ 0) (hd64 : d < 2 ^ 64)
    (hsmall : n / d < 2 ^ 52) (h : ofRatio false n d = .finite x) :
    x.floor = (if RoundsUp n d then n / d + 1 else n / d : Nat) := by
  by_cases hzero : n = 0
  · rw [hzero] at h ⊢
    rw [floor_ofRatio_zero h, if_neg (not_roundsUp_zero hd), Nat.zero_div, Nat.cast_zero]
  · have hmag := magnitude_lt_of_div_lt hzero hd hsmall
    obtain ⟨hlow, -⟩ := abs_magnitude_le hn hd64
    have hbit : -1074 ≤ lastBit n d ∧ lastBit n d < 0 := by
      unfold lastBit
      omega
    exact floor_ofRatio hzero hd ⟨hbit.1, hbit.2.le⟩ (fun htie => absurd htie hbit.2.ne) h

theorem floor_ofRatio_of_lt {x : Finite} (hn : n < 2 ^ 53) (hd : d ≠ 0) (hd64 : d < 2 ^ 64)
    (h : ofRatio false n d = .finite x) : x.floor = (n / d : Nat) := by
  by_cases hzero : n = 0
  · rw [hzero] at h ⊢
    rw [floor_ofRatio_zero h, Nat.zero_div, Nat.cast_zero]
  · have hmag := magnitude_lt_of_div_lt hzero hd ((Nat.div_le_self n d).trans_lt hn)
    obtain ⟨hlow, -⟩ := abs_magnitude_le (hn.trans (by norm_num)) hd64
    have hbit : -1074 ≤ lastBit n d ∧ lastBit n d ≤ 0 := by
      unfold lastBit
      omega
    have hexact := not_roundsUp_of_lt hn hd
    rw [floor_ofRatio hzero hd hbit (fun _ => hexact) h, if_neg hexact]

end MinConflicts.Binary64
