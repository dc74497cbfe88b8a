import Mathlib.Tactic.FieldSimp
import Mathlib.Tactic.Linarith
import Mathlib.Tactic.Positivity
import MinConflicts.Proofs.Effects
import MinConflicts.Score

/-!
# The order of exact scores

Over the rationals a score is the harmonic mean of two parts, each at most 1. The part for the
violated constraints is positive, 1 without any and at most `1 / 2` with one or more. The part for
the preference is at least `1 - factor`, so a factor below `1 / 2` leaves every candidate without
violations above all others: `2 / 3`, the harmonic mean of `1 / 2` and 1, lies between them.
-/
namespace MinConflicts

namespace Score

def exactConflict (count : ℚ) : ℚ := 1 / (1 + count)

def exactPreference (pref factor : ℚ) : ℚ := 1 - factor + pref / 10 * factor

def exactMean (a b : ℚ) : ℚ := 2 * a * b / (a + b)

def exact (count pref factor : ℚ) : ℚ :=
  exactMean (exactConflict count) (exactPreference pref factor)

variable {a a' b b' c c' p p' f : ℚ}

theorem conflict_eq (hc : 0 ≤ c) : conflict c = .ok (exactConflict c) :=
  if_neg (add_pos_of_pos_of_nonneg one_pos hc).ne'

theorem preference_eq (p f : ℚ) : preference p f = .ok (exactPreference p f) := by
  have hten : (Arith.div p Arith.ten : Except Fault ℚ) = .ok (p / 10) := if_neg (by decide)
  exact Fault.bind_eq_ok.2 ⟨1 - f, rfl, Fault.bind_eq_ok.2 ⟨p / 10, hten, rfl⟩⟩

theorem harmonicMean_eq (a b : ℚ) : harmonicMean a b = .ok (exactMean a b) := by
  by_cases hsum : a + b = 0
  · -- the mean is 0 here by the quotient itself, which is 0 for a sum of 0
    have hzero : (Arith.isZero (a + b) : Bool) = true := beq_iff_eq.2 hsum
    refine Fault.bind_eq_ok.2 ⟨a + b, rfl, ?_⟩
    rw [if_pos hzero, exactMean, hsum, div_zero]
    rfl
  · have hnonzero : ¬(Arith.isZero (a + b) : Bool) = true := fun h => hsum (beq_iff_eq.1 h)
    refine Fault.bind_eq_ok.2 ⟨a + b, rfl, ?_⟩
    rw [if_neg hnonzero]
    exact if_neg hsum

theorem candidate_eq (hc : 0 ≤ c) (p f : ℚ) : candidate c p f = .ok (exact c p f) :=
  Fault.bind_eq_ok.2 ⟨_, conflict_eq hc, Fault.bind_eq_ok.2 ⟨_, preference_eq p f,
    harmonicMean_eq _ _⟩⟩

theorem exactMean_self (a : ℚ) : exactMean a a = a := by
  by_cases ha : a = 0
  · simp [exactMean, ha]
  · rw [exactMean]
    field_simp
    norm_num

theorem exactMean_mono (ha : 0 < a) (haa : a ≤ a') (hb : 0 ≤ b) (hbb : b ≤ b') :
    exactMean a b ≤ exactMean a' b' := by
  have ha' : 0 < a' := ha.trans_le haa
  have hb' : 0 ≤ b' := hb.trans hbb
  have hleft : a * b * a' ≤ a' * b' * a := by
    have hmul := mul_le_mul_of_nonneg_left hbb (mul_pos ha ha').le
    linarith
  have hright : a * b * b' ≤ a' * b' * b := by
    have hmul := mul_le_mul_of_nonneg_right haa (mul_nonneg hb hb')
    linarith
  rw [exactMean, exactMean, div_le_div_iff₀ (by linarith) (by linarith)]
  linarith

theorem exactMean_lt_left (ha : 0 ≤ a) (haa : a < a') (hb : 0 < b) :
    exactMean a b < exactMean a' b := by
  have hmul := mul_lt_mul_of_pos_right haa (mul_pos hb hb)
  rw [exactMean, exactMean, div_lt_div_iff₀ (by linarith) (by linarith)]
  linarith

theorem exactMean_comm (a b : ℚ) : exactMean a b = exactMean b a := by
  rw [exactMean, exactMean, add_comm b a, mul_right_comm]

theorem exactMean_lt_right (ha : 0 < a) (hb : 0 ≤ b) (hbb : b < b') :
    exactMean a b < exactMean a b' := by
  rw [exactMean_comm a b, exactMean_comm a b']
  exact exactMean_lt_left hb hbb ha

theorem exactConflict_pos (hc : 0 ≤ c) : 0 < exactConflict c := by
  unfold exactConflict
  positivity

theorem exactConflict_zero : exactConflict 0 = 1 := by norm_num [exactConflict]

theorem exactConflict_one : exactConflict 1 = 1 / 2 := by norm_num [exactConflict]

theorem exactConflict_lt (hc : 0 ≤ c) (hcc : c < c') : exactConflict c' < exactConflict c :=
  one_div_lt_one_div_of_lt (by linarith) (by linarith)

theorem exactConflict_le (hc : 0 ≤ c) (hcc : c ≤ c') : exactConflict c' ≤ exactConflict c :=
  one_div_le_one_div_of_le (by linarith) (by linarith)

structure InRange (count pref factor : ℚ) : Prop where
  count_nonneg : 0 ≤ count
  pref_nonneg : 0 ≤ pref
  pref_le : pref ≤ 10
  factor_nonneg : 0 ≤ factor
  factor_le : factor ≤ 1

theorem exactPreference_mono (hf : 0 ≤ f) (hpp : p ≤ p') :
    exactPreference p f ≤ exactPreference p' f := by
  have hmul := mul_le_mul_of_nonneg_right hpp hf
  unfold exactPreference
  linarith

theorem exactPreference_zero (f : ℚ) : exactPreference 0 f = 1 - f := by simp [exactPreference]

theorem exactPreference_ten (f : ℚ) : exactPreference 10 f = 1 := by norm_num [exactPreference]

theorem exactPreference_eq_one_iff (p f : ℚ) : exactPreference p f = 1 ↔ f = 0 ∨ p = 10 := by
  have hproduct : exactPreference p f = 1 ↔ f * (p - 10) = 0 := by
    unfold exactPreference
    constructor
    · intro hone
      linarith
    · intro hzero
      linarith
  rw [hproduct, mul_eq_zero, sub_eq_zero]

namespace InRange

theorem exactPreference_bounds (h : InRange c p f) :
    1 - f ≤ exactPreference p f ∧ exactPreference p f ≤ 1 := by
  have hlow := exactPreference_mono h.factor_nonneg h.pref_nonneg
  have hhigh := exactPreference_mono h.factor_nonneg h.pref_le
  rw [exactPreference_zero] at hlow
  rw [exactPreference_ten] at hhigh
  exact ⟨hlow, hhigh⟩

theorem exactPreference_nonneg (h : InRange c p f) : 0 ≤ exactPreference p f := by
  have hlow := h.exactPreference_bounds.1
  have hfactor := h.factor_le
  linarith

theorem exactPreference_eq_zero_iff (h : InRange c p f) :
    exactPreference p f = 0 ↔ f = 1 ∧ p = 0 := by
  constructor
  · intro hzero
    have hf : f = 1 := le_antisymm h.factor_le (by linarith [h.exactPreference_bounds.1])
    subst hf
    refine ⟨rfl, ?_⟩
    unfold exactPreference at hzero
    linarith
  · rintro ⟨rfl, rfl⟩
    rw [exactPreference_zero, sub_self]

theorem exactPreference_pos (h : InRange c p f) (hcorner : ¬(f = 1 ∧ p = 0)) :
    0 < exactPreference p f :=
  lt_of_le_of_ne h.exactPreference_nonneg fun hzero =>
    hcorner (h.exactPreference_eq_zero_iff.1 hzero.symm)

theorem exactConflict_le_one (h : InRange c p f) : exactConflict c ≤ 1 :=
  exactConflict_zero ▸ exactConflict_le le_rfl h.count_nonneg

theorem exact_nonneg (h : InRange c p f) : 0 ≤ exact c p f := by
  have ha := exactConflict_pos h.count_nonneg
  have hb := h.exactPreference_nonneg
  unfold exact exactMean
  positivity

theorem exact_le_one (h : InRange c p f) : exact c p f ≤ 1 :=
  (exactMean_mono (exactConflict_pos h.count_nonneg) h.exactConflict_le_one
    h.exactPreference_nonneg h.exactPreference_bounds.2).trans_eq (exactMean_self 1)

theorem exact_eq_zero (h : InRange c p f) (hcorner : f = 1 ∧ p = 0) : exact c p f = 0 := by
  rw [exact, h.exactPreference_eq_zero_iff.2 hcorner, exactMean, mul_zero, zero_div]

theorem exact_mono_pref (h : InRange c p f) (hpp : p ≤ p') : exact c p f ≤ exact c p' f :=
  exactMean_mono (exactConflict_pos h.count_nonneg) le_rfl h.exactPreference_nonneg
    (exactPreference_mono h.factor_nonneg hpp)

theorem exact_lt_count (h : InRange c p f) (hcorner : ¬(f = 1 ∧ p = 0)) (hcc : c < c') :
    exact c' p f < exact c p f :=
  exactMean_lt_left (exactConflict_pos (h.count_nonneg.trans hcc.le)).le
    (exactConflict_lt h.count_nonneg hcc) (h.exactPreference_pos hcorner)

theorem exact_eq_one_iff (h : InRange c p f) : exact c p f = 1 ↔ c = 0 ∧ (f = 0 ∨ p = 10) := by
  have hpos := exactConflict_pos h.count_nonneg
  have hnonneg := h.exactPreference_nonneg
  have hle := h.exactPreference_bounds.2
  rw [← exactPreference_eq_one_iff]
  constructor
  · intro hone
    constructor
    · by_contra hc
      have hlt : exactConflict c < 1 := exactConflict_zero ▸
        exactConflict_lt le_rfl (lt_of_le_of_ne h.count_nonneg (Ne.symm hc))
      have hbelow := (exactMean_mono hpos le_rfl hnonneg hle).trans_lt
        (exactMean_lt_left hpos.le hlt one_pos)
      rw [exactMean_self] at hbelow
      exact hbelow.ne hone
    · by_contra hp
      have hbelow := (exactMean_mono hpos h.exactConflict_le_one hnonneg le_rfl).trans_lt
        (exactMean_lt_right one_pos hnonneg (lt_of_le_of_ne hle hp))
      rw [exactMean_self] at hbelow
      exact hbelow.ne hone
  · intro hone
    obtain ⟨rfl, hp⟩ := hone
    rw [exact, exactConflict_zero, hp, exactMean_self]

end InRange

theorem exact_le_of_violations (h : InRange c p f) (hc : 1 ≤ c) :
    exact c p f ≤ exactMean (1 / 2) 1 :=
  exactMean_mono (exactConflict_pos h.count_nonneg)
    (exactConflict_one ▸ exactConflict_le zero_le_one hc) h.exactPreference_nonneg
    h.exactPreference_bounds.2

theorem le_exact_of_no_violations (h : InRange 0 p f) : exactMean 1 (1 - f) ≤ exact 0 p f :=
  exactMean_mono one_pos exactConflict_zero.ge (sub_nonneg.2 h.factor_le)
    h.exactPreference_bounds.1

theorem no_violations_first_iff (hf : 0 ≤ f) (hf' : f ≤ 1) :
    (∀ p p' c', InRange 0 p f → InRange c' p' f → 1 ≤ c' → exact c' p' f < exact 0 p f) ↔
      f < 1 / 2 := by
  constructor
  · intro hfirst
    have hworst := hfirst 0 10 1 ⟨le_rfl, le_rfl, by norm_num, hf, hf'⟩
      ⟨zero_le_one, by norm_num, le_rfl, hf, hf'⟩ le_rfl
    rw [exact, exact, exactConflict_zero, exactConflict_one, exactPreference_zero,
      exactPreference_ten, exactMean_comm (1 / 2)] at hworst
    by_contra hlarge
    have hbelow := exactMean_mono one_pos le_rfl (sub_nonneg.2 hf')
      (show 1 - f ≤ 1 / 2 by linarith)
    exact absurd hworst (not_lt.2 hbelow)
  · intro hsmall p p' c' h h' hc'
    calc exact c' p' f ≤ exactMean (1 / 2) 1 := exact_le_of_violations h' hc'
      _ = exactMean 1 (1 / 2) := exactMean_comm _ _
      _ < exactMean 1 (1 - f) := exactMean_lt_right one_pos (by norm_num) (by linarith)
      _ ≤ exact 0 p f := le_exact_of_no_violations h

/-- Over the rationals the formulas give a score from 0 to 1 that does not fall with the preference
and falls with the number of violated constraints, except that a factor of 1 and a preference of 0
make it 0 for every number of them. It is 1 only without violations and with the best preference
that counts, and all candidates without violations come before all others exactly if the factor is
below `1 / 2`. -/
theorem candidate_ordered (h : InRange c p f) :
    candidate c p f = .ok (exact c p f) ∧ 0 ≤ exact c p f ∧ exact c p f ≤ 1 ∧
      (∀ p', InRange c p' f → p ≤ p' → exact c p f ≤ exact c p' f) ∧
      (∀ c', c ≤ c' → exact c' p f ≤ exact c p f) ∧
      (¬(f = 1 ∧ p = 0) → ∀ c', c < c' → exact c' p f < exact c p f) ∧
      (f = 1 ∧ p = 0 → exact c p f = 0) ∧
      (exact c p f = 1 ↔ c = 0 ∧ (f = 0 ∨ p = 10)) ∧
      ((∀ p p' c', InRange 0 p f → InRange c' p' f → 1 ≤ c' → exact c' p' f < exact 0 p f) ↔
        f < 1 / 2) := by
  refine ⟨candidate_eq h.count_nonneg p f, h.exact_nonneg, h.exact_le_one,
    fun p' _ hpp => h.exact_mono_pref hpp, fun c' hcc => ?_, fun hcorner c' hcc => ?_,
    h.exact_eq_zero, h.exact_eq_one_iff, no_violations_first_iff h.factor_nonneg h.factor_le⟩
  · exact exactMean_mono (exactConflict_pos (h.count_nonneg.trans hcc))
      (exactConflict_le h.count_nonneg hcc) h.exactPreference_nonneg le_rfl
  · exact h.exact_lt_count hcorner hcc

theorem unwanted_above_violating : ∃ s t : ℚ, candidate 0 0 (1 / 10) = .ok s ∧
    candidate 3 10 (1 / 10) = .ok t ∧ t < s ∧ s < 1 := by
  have hunwanted : InRange 0 0 (1 / 10) := ⟨le_rfl, le_rfl, by norm_num, by norm_num, by norm_num⟩
  have hviolating : InRange 3 10 (1 / 10) :=
    ⟨by norm_num, by norm_num, le_rfl, by norm_num, by norm_num⟩
  obtain ⟨hs, -, hle, -, -, -, -, hone, hfirst⟩ := candidate_ordered hunwanted
  obtain ⟨ht, -⟩ := candidate_ordered hviolating
  refine ⟨_, _, hs, ht, hfirst.2 (by norm_num) _ _ _ hunwanted hviolating (by norm_num), ?_⟩
  exact lt_of_le_of_ne hle fun hbest => absurd (hone.1 hbest).2 (by norm_num)

end Score

end MinConflicts
