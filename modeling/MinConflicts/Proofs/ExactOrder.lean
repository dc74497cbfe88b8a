import Mathlib.Algebra.Order.Field.Power
import Mathlib.Data.Rat.Cast.Order
import Mathlib.Order.Compare
import Mathlib.Order.WithBot
import Mathlib.Tactic.Linarith
import Mathlib.Tactic.NormNum
import Mathlib.Tactic.Positivity
import Mathlib.Tactic.Ring
import MinConflicts.Number

/-!
# Numbers by exact value

Integers and double-precision numbers are compared by what they stand for. A finite number
stands for a rational, an infinity and a labelled NaN for themselves, and two numbers are the
same exactly when they stand for the same thing. So sameness of numbers is an equivalence, also
across the two kinds. The order of numbers is that of their levels, the rationals between the two
infinities; a NaN has no level and is neither less nor greater than anything.
-/
namespace MinConflicts

theorem compare_congr {α β : Type*} [LinearOrder α] [LinearOrder β] {a b : α} {c d : β}
    (hlt : a < b → c < d) (heq : a = b → c = d) (hgt : b < a → d < c) :
    compare a b = compare c d := by
  rcases lt_trichotomy a b with h | h | h
  · rw [compare_lt_iff_lt.2 h, compare_lt_iff_lt.2 (hlt h)]
  · rw [compare_eq_iff_eq.2 h, compare_eq_iff_eq.2 (heq h)]
  · rw [compare_gt_iff_gt.2 h, compare_gt_iff_gt.2 (hgt h)]

namespace Binary64

theorem two_zpow_pos (e : Int) : (0 : ℚ) < 2 ^ e := by positivity

theorem shiftLeft_mul_zpow (m e f : Int) :
    ((m <<< (e - f).toNat : Int) : ℚ) * 2 ^ min e f = m * 2 ^ e := by
  have he : e = ((e - f).toNat : Int) + min e f := by omega
  rw [Int.shiftLeft_eq, Int.cast_mul, mul_assoc]
  congr 1
  conv_rhs => rw [he, zpow_add₀ two_ne_zero, zpow_natCast]
  push_cast
  rfl

theorem compareScaled_eq (m e n f : Int) :
    compareScaled m e n f = compare ((m : ℚ) * 2 ^ e) (n * 2 ^ f) := by
  have hg := two_zpow_pos (min e f)
  have hm := shiftLeft_mul_zpow m e f
  have hn := shiftLeft_mul_zpow n f e
  rw [min_comm] at hn
  rw [← hm, ← hn]
  refine compare_congr (fun h => ?_) (fun h => by rw [h]) (fun h => ?_)
  · exact mul_lt_mul_of_pos_right (by exact_mod_cast h) hg
  · exact mul_lt_mul_of_pos_right (by exact_mod_cast h) hg

namespace Finite

def magnitude (x : Finite) : ℚ := x.mant * 2 ^ x.exp

def toRat (x : Finite) : ℚ := x.signed * 2 ^ x.exp

theorem toRat_of_pos {x : Finite} (h : x.neg = false) : x.toRat = x.magnitude := by
  simp [toRat, magnitude, signed, h]

theorem toRat_of_neg {x : Finite} (h : x.neg = true) : x.toRat = -x.magnitude := by
  simp [toRat, magnitude, signed, h]

theorem magnitude_nonneg (x : Finite) : 0 ≤ x.magnitude := by
  have := two_zpow_pos x.exp
  unfold magnitude
  positivity

theorem magnitude_lt_of_rank_lt {x y : Finite} (h : x.rank < y.rank) :
    x.magnitude < y.magnitude := by
  obtain ⟨hxm, hxl, -, hxf⟩ := x.canonical
  obtain ⟨hym, hyl, -, hyf⟩ := y.canonical
  have hle : x.exp ≤ y.exp := by
    unfold rank at h
    omega
  rcases hle.eq_or_lt with he | hlt
  · have hmant : x.mant < y.mant := by
      unfold rank at h
      omega
    unfold magnitude
    rw [he]
    exact mul_lt_mul_of_pos_right (by exact_mod_cast hmant) (two_zpow_pos _)
  · -- the exponent of `y` is not the least one, so its mantissa is full: more than half of any
    have hmant : x.mant < 2 * y.mant := by omega
    calc x.magnitude < (2 * y.mant : ℚ) * 2 ^ x.exp :=
          mul_lt_mul_of_pos_right (by exact_mod_cast hmant) (two_zpow_pos _)
      _ = y.mant * 2 ^ (x.exp + 1) := by rw [zpow_add_one₀ two_ne_zero]; ring
      _ ≤ y.magnitude := by
          refine mul_le_mul_of_nonneg_left ?_ (Nat.cast_nonneg _)
          exact zpow_le_zpow_right₀ one_le_two hlt

theorem magnitude_eq_of_rank_eq {x y : Finite} (h : x.rank = y.rank) :
    x.magnitude = y.magnitude := by
  obtain ⟨hxm, hxl, -, hxf⟩ := x.canonical
  obtain ⟨hym, hyl, -, hyf⟩ := y.canonical
  unfold rank at h
  have he : x.exp = y.exp := by omega
  have hm : x.mant = y.mant := by
    rw [he] at h
    omega
  rw [magnitude, magnitude, he, hm]

theorem compare_rank (x y : Finite) :
    Ord.compare x.rank y.rank = Ord.compare x.magnitude y.magnitude :=
  compare_congr magnitude_lt_of_rank_lt magnitude_eq_of_rank_eq magnitude_lt_of_rank_lt

theorem magnitude_eq_zero_iff {x : Finite} : x.magnitude = 0 ↔ x.rank = 0 := by
  obtain ⟨-, hl, -, hf⟩ := x.canonical
  have hm : x.magnitude = 0 ↔ x.mant = 0 := by
    simp [magnitude, (two_zpow_pos x.exp).ne']
  rw [hm]
  unfold rank
  omega

theorem mant_eq_zero_of_magnitude {x : Finite} (h : x.magnitude = 0) : x.mant = 0 := by
  have hr := magnitude_eq_zero_iff.1 h
  unfold rank at hr
  omega

theorem compare_opposite {x y : Finite} (hx : x.neg = false) (hy : y.neg = true)
    (h : ¬(x.rank = 0 ∧ y.rank = 0)) : y.toRat < x.toRat := by
  rw [toRat_of_pos hx, toRat_of_neg hy]
  rw [← magnitude_eq_zero_iff, ← magnitude_eq_zero_iff] at h
  have hx0 := x.magnitude_nonneg
  have hy0 := y.magnitude_nonneg
  by_contra hle
  exact h ⟨by linarith, by linarith⟩

theorem toRat_eq_zero {x : Finite} (h : x.rank = 0) : x.toRat = 0 := by
  have hm := magnitude_eq_zero_iff.2 h
  cases hn : x.neg with
  | false => rw [toRat_of_pos hn, hm]
  | true => rw [toRat_of_neg hn, hm, neg_zero]

theorem compare_eq (x y : Finite) : x.compare y = Ord.compare x.toRat y.toRat := by
  unfold Finite.compare
  cases hx : x.neg with
  | false =>
    cases hy : y.neg with
    | false => simp only [toRat_of_pos hx, toRat_of_pos hy, compare_rank]
    | true =>
      dsimp only
      split_ifs with h
      · rw [toRat_eq_zero h.1, toRat_eq_zero h.2, compare_eq_iff_eq.2 rfl]
      · rw [compare_gt_iff_gt.2 (compare_opposite hx hy h)]
  | true =>
    cases hy : y.neg with
    | false =>
      dsimp only
      split_ifs with h
      · rw [toRat_eq_zero h.1, toRat_eq_zero h.2, compare_eq_iff_eq.2 rfl]
      · rw [compare_lt_iff_lt.2 (compare_opposite hy hx (mt And.symm h))]
    | true =>
      dsimp only
      rw [compare_rank, toRat_of_neg hx, toRat_of_neg hy]
      exact compare_congr neg_lt_neg (fun h => by rw [h]) neg_lt_neg

end Finite

end Binary64

inductive Exact where
  | nan (label : Nat)
  | infinity (neg : Bool)
  | rational (q : ℚ)

/-- The place in the order of all numbers. -/
def Exact.level? : Exact → Option (WithBot (WithTop ℚ))
  | .nan _ => none
  | .infinity neg => some (if neg then ⊥ else ⊤)
  | .rational q => some (q : WithTop ℚ)

theorem rational_lt_top (q : ℚ) : ((q : WithTop ℚ) : WithBot (WithTop ℚ)) < ⊤ :=
  WithBot.coe_lt_coe.2 (WithTop.coe_lt_top q)

namespace Number

def exact : Number → Exact
  | .int z => .rational z
  | .float (.finite x) => .rational x.toRat
  | .float (.infinity neg) => .infinity neg
  | .float (.nan label) => .nan label

theorem compareInt_eq (z : Int) (x : Binary64.Finite) :
    Binary64.compareScaled z 0 x.signed x.exp = compare (z : ℚ) x.toRat := by
  rw [Binary64.compareScaled_eq, zpow_zero, mul_one]
  rfl

theorem int_le_finite {z : Int} {x : Binary64.Finite} :
    le (.int z) (.float (.finite x)) = true ↔ (z : ℚ) ≤ x.toRat := by
  simp only [le, compare?, Binary64.compareInt?, compareInt_eq, Bool.or_eq_true, beq_iff_eq,
    Option.some.injEq, compare_lt_iff_lt, compare_eq_iff_eq]
  exact le_iff_lt_or_eq.symm

theorem finite_le_int {z : Int} {x : Binary64.Finite} :
    le (.float (.finite x)) (.int z) = true ↔ x.toRat ≤ z := by
  simp only [le, compare?, Binary64.compareInt?, compareInt_eq, Bool.or_eq_true, beq_iff_eq,
    Option.map_some, Option.some.injEq, Ordering.swap_eq_lt, Ordering.swap_eq_eq,
    compare_gt_iff_gt, compare_eq_iff_eq]
  exact ⟨fun h => h.elim le_of_lt ge_of_eq, fun h => (lt_or_eq_of_le h).imp id Eq.symm⟩

theorem compareInt?_eq_some (z : Int) (x : Binary64) :
    Binary64.compareInt? z x = some .eq ↔ exact (.int z) = exact (.float x) := by
  cases x with
  | nan label => simp only [Binary64.compareInt?, exact, reduceCtorEq]
  | infinity neg => cases neg <;> simp [Binary64.compareInt?, exact]
  | finite x =>
    simp only [Binary64.compareInt?, exact, compareInt_eq, Option.some.injEq, compare_eq_iff_eq,
      Exact.rational.injEq]

theorem same_iff (x y : Number) : x.same y = true ↔ x.exact = y.exact := by
  cases x with
  | int a =>
    cases y with
    | int b =>
      simp only [same, eq, compare?, exact, beq_iff_eq, Option.some.injEq, compare_eq_iff_eq,
        Exact.rational.injEq, Int.cast_inj]
    | float y => simp only [same, eq, compare?, beq_iff_eq, compareInt?_eq_some]
  | float x =>
    cases y with
    | int b =>
      have hswap : ∀ o : Ordering, o.swap = .eq ↔ o = .eq := by decide
      rw [eq_comm (a := exact (.float x)), ← compareInt?_eq_some]
      simp only [same, eq, compare?, beq_iff_eq, Option.map_eq_some_iff, hswap, exists_eq_right]
    | float y =>
      cases x with
      | nan l =>
        cases y with
        | nan k => simp only [same, exact, beq_iff_eq, Exact.nan.injEq]
        | infinity t => simp [same, eq, compare?, Binary64.compare?, exact]
        | finite y => simp [same, eq, compare?, Binary64.compare?, exact]
      | infinity s =>
        cases y with
        | nan k => simp [same, eq, compare?, Binary64.compare?, exact]
        | infinity t => cases s <;> cases t <;> simp [same, eq, compare?, Binary64.compare?, exact]
        | finite y => cases s <;> simp [same, eq, compare?, Binary64.compare?, exact]
      | finite x =>
        cases y with
        | nan k => simp [same, eq, compare?, Binary64.compare?, exact]
        | infinity t => cases t <;> simp [same, eq, compare?, Binary64.compare?, exact]
        | finite y =>
          simp only [same, eq, compare?, Binary64.compare?, exact, beq_iff_eq,
            Option.some.injEq, Binary64.Finite.compare_eq, compare_eq_iff_eq,
            Exact.rational.injEq]

theorem lt_iff {x y : Number} : x.lt y = true ↔
    ∃ p q, x.exact.level? = some p ∧ y.exact.level? = some q ∧ p < q := by
  cases x with
  | int a =>
    cases y with
    | int b => simp [lt, compare?, exact, Exact.level?, compare_lt_iff_lt]
    | float y =>
      cases y with
      | nan l => simp [lt, compare?, Binary64.compareInt?, exact, Exact.level?]
      | infinity t =>
        cases t <;> simp [lt, compare?, Binary64.compareInt?, exact, Exact.level?, rational_lt_top]
      | finite y =>
        simp [lt, compare?, Binary64.compareInt?, compareInt_eq, exact, Exact.level?,
          compare_lt_iff_lt]
  | float x =>
    cases y with
    | int b =>
      cases x with
      | nan l => simp [lt, compare?, Binary64.compareInt?, exact, Exact.level?]
      | infinity s => cases s <;> simp [lt, compare?, Binary64.compareInt?, exact, Exact.level?]
      | finite x =>
        have hswap : ∀ o : Ordering, o.swap = .lt ↔ o = .gt := by decide
        simp [lt, compare?, Binary64.compareInt?, compareInt_eq, exact, Exact.level?, hswap,
          compare_gt_iff_gt]
    | float y =>
      cases x with
      | nan l => simp [lt, compare?, Binary64.compare?, exact, Exact.level?]
      | infinity s =>
        cases y with
        | nan l => simp [lt, compare?, Binary64.compare?, exact, Exact.level?]
        | infinity t =>
          have hsigns : compare false true = .lt := rfl
          cases s <;> cases t <;>
            simp [lt, compare?, Binary64.compare?, exact, Exact.level?, hsigns]
        | finite y => cases s <;> simp [lt, compare?, Binary64.compare?, exact, Exact.level?]
      | finite x =>
        cases y with
        | nan l => simp [lt, compare?, Binary64.compare?, exact, Exact.level?]
        | infinity t =>
          cases t <;> simp [lt, compare?, Binary64.compare?, exact, Exact.level?, rational_lt_top]
        | finite y =>
          simp [lt, compare?, Binary64.compare?, exact, Exact.level?,
            Binary64.Finite.compare_eq, compare_lt_iff_lt]

end Number

end MinConflicts
